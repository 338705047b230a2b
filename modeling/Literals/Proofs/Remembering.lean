/-
# Remembering changes nothing

The reader that remembers compounds and the one that does not give the same outcome: the same tree
up to the same point, or a failure for the same reason at the same point.  The memory is keyed by
the offset alone, while what is found there may depend on how many compounds are open, for a limit
may be set.  What carries the argument is that **the offset decides how many are open**
(`Stands.unique`), so that an outcome is only ever asked for where it was found.

`Recalls` is what holds of every memory on the way: each outcome kept is what the plain rules find
there.  `Recites` is the statement about one rule at one point, and a pairing (`remembered`).  It
is made for texts that are read somewhere in the middle of a session: the reader that remembers
stands `k` characters further on, and whatever it keeps anew has been passed by the rule.

**That has to be shown where a set turns out to be a dictionary.**  The set may have got further
than the dictionary does, and what it found there stays in the memory; but then the dictionary
fails at the comma after its first key (`run_set`).
-/
import Literals.Proofs.Pairing

namespace Literals.Reader

open Grammar Rule

/-! ## 1. Memories -/

/-- Every outcome kept under an offset of the text, which starts at the offset `k`, is what the
plain rule finds there. -/
def Recalls (k : Nat) (text : List Char) (plain : Nat → Rule Id Node) (s : Memory) : Prop :=
  ∀ (depth : Nat) (p : Point) (found : Outcome Node), Stands text depth p →
    s.outcomes[p.offset + k]? = some found → found = (plain depth p).moved k

section Recalls

variable {k : Nat} {text : List Char} {plain : Nat → Rule Id Node} {s s' : Memory} {p : Point}
  {depth : Nat}

/-- What is remembered of the text before the place does not matter. -/
theorem recalls_of_behind (h : ∀ o ∈ s.outcomes, o < k) : Recalls k text plain s := by
  intro depth p found _ hfound
  have hmem : p.offset + k ∈ s.outcomes := by
    rw [Std.HashMap.mem_iff_isSome_getElem?, hfound]
    rfl
  exact absurd (h _ hmem) (by omega)

theorem Recalls.congr (h : Recalls k text plain s) (hs : s'.outcomes = s.outcomes) :
    Recalls k text plain s' := by
  intro depth p found hp hfound
  exact h depth p found hp (hs ▸ hfound)

/-- What is found may be kept. -/
theorem Recalls.keeping (h : Recalls k text plain s) (hp : Stands text depth p) :
    Recalls k text plain (s.keeping (p.offset + k) ((plain depth p).moved k)) := by
  intro depth' q found hq hfound
  rw [Memory.keeping] at hfound
  split at hfound
  next =>
    simp only [Std.HashMap.getElem?_insert, beq_iff_eq] at hfound
    split at hfound
    next heq =>
      obtain ⟨rfl, rfl⟩ := hp.unique hq (Nat.add_right_cancel heq)
      exact (Option.some.inj hfound).symm
    next => exact h depth' q found hq hfound
  next => exact h depth' q found hq hfound

/-- Nothing else is kept with it. -/
theorem Memory.mem_keeping {o o' : Nat} {found : Outcome Node}
    (h : o ∈ (s.keeping o' found).outcomes) : o' = o ∨ o ∈ s.outcomes := by
  rw [Memory.keeping] at h
  split at h
  next => simpa using Std.HashMap.mem_insert.mp h
  next => exact .inr h

end Recalls

section Keeper

variable {σ : Type} (κ : Keeper σ) {r : Rule (StateM σ) Node} {p : Point} {s s' : σ}
  {found : Outcome Node}

/-- A known outcome is given as it was kept. -/
theorem Keeper.run_recalled_of_known (h : κ.known? s p.offset = some found) :
    ((κ.recalled r p).run s).run = (found, κ.replaying s p.offset) := by
  simp [Keeper.recalled, h]

/-- An unknown one is read. -/
theorem Keeper.run_recalled_of_unknown (h : κ.known? s p.offset = none)
    (hr : ((r p).run (κ.beginning s p.offset)).run = (found, s')) :
    ((κ.recalled r p).run s).run = (found, κ.keeping s' p.offset found) := by
  simp [Keeper.recalled, h, hr]

end Keeper

/-! ## 2. Rules with and without a memory -/

/-- The offset lies before the point where the rule stopped; or the rule failed there at a
comma. -/
def Passes {α : Type} (k : Nat) (found : Outcome α) (o : Nat) : Prop :=
  o < found.stop.offset + k ∨ (∃ c q, found = .failed c q) ∧ found.stop.rest.head? = some ','

@[simp] theorem passes_ok {α : Type} {k : Nat} {a : α} {q : Point} {o : Nat} :
    Passes k (.ok a q) o ↔ o < q.offset + k := by
  simp [Passes, Outcome.stop]

@[simp] theorem passes_failed {α : Type} {k : Nat} {c : Cause} {q : Point} {o : Nat} :
    Passes k (.failed c q : Outcome α) o ↔ o < q.offset + k ∨ q.rest.head? = some ',' := by
  simp [Passes, Outcome.stop]

theorem Passes.of_reaches {α : Type} {k : Nat} {q : Point} {found : Outcome α} {o : Nat}
    (h : o < q.offset + k) (hq : Reaches q found.stop) : Passes k found o :=
  Or.inl (h.trans_le (Nat.add_le_add_right hq.offset_le k))

section Run

variable {σ α β : Type} {p : Point}

theorem run_bind_of_ok {r : Rule (StateM σ) α} {k : α → Rule (StateM σ) β} {a : α}
    {q : Point} {s s' : σ} (h : ((r p).run s).run = (.ok a q, s')) :
    (((r >>= k) p).run s).run = ((k a q).run s').run := by
  change (StateT.run (r p >>= _) s).run = _
  rw [StateT.run_bind, Id.run_bind, h]

theorem run_bind_of_failed {r : Rule (StateM σ) α} {k : α → Rule (StateM σ) β}
    {c : Cause} {q : Point} {s s' : σ} (h : ((r p).run s).run = (.failed c q, s')) :
    (((r >>= k) p).run s).run = (.failed c q, s') := by
  change (StateT.run (r p >>= _) s).run = _
  rw [StateT.run_bind, Id.run_bind, h]
  rfl

variable {note : Retry → StateM σ Unit} {trial : Trial} {first second : Rule (StateM σ) Node}
  {c : Cause} {q : Point} {s s' : σ}

theorem run_attempt_of_ok {x : Node} (h : ((first p).run s).run = (.ok x q, s')) :
    ((attempt note trial first second p).run s).run = (.ok x q, s') := by
  rw [attempt, StateT.run_bind, Id.run_bind, h]
  rfl

theorem run_attempt_of_final (h : ((first p).run s).run = (.failed c q, s'))
    (hc : c.isFinal = true) :
    ((attempt note trial first second p).run s).run = (.failed c q, s') := by
  rw [attempt, StateT.run_bind, Id.run_bind, h]
  simp only [hc, if_true]
  rfl

/-- The retry is noted before the second rule starts. -/
theorem run_attempt_of_failed (h : ((first p).run s).run = (.failed c q, s'))
    (hc : c.isFinal = false) :
    ((attempt note trial first second p).run s).run =
      ((second p).run ((note ⟨trial, q.offset, c, p.offset⟩).run s').run.2).run := by
  rw [attempt, StateT.run_bind, Id.run_bind, h]
  simp only [hc, Bool.false_eq_true, if_false]
  rfl

end Run

/-- At the point, `k` characters further on, the rule `r` finds what `r'` finds, from every memory
that recalls what the plain rules find, and leaves such a memory; what is new in it has been
passed. -/
structure Recites (k : Nat) (text : List Char) (plain : Nat → Rule Id Node) {α : Type}
    (r : Rule (StateM Memory) α) (r' : Rule Id α) (Q : α → Point → Prop) (p : Point) : Prop where
  reaches : Reaches p (Outcome.stop (r' p))
  found : ∀ a q, r' p = .ok a q → Q a q
  run : ∀ s, Recalls k text plain s → ∃ s', ((r (p.moved k)).run s).run = ((r' p).moved k, s') ∧
    Recalls k text plain s' ∧ ∀ o ∈ s'.outcomes, o ∈ s.outcomes ∨ Passes k (r' p) o

section Recites

variable {k : Nat} {text : List Char} {plain : Nat → Rule Id Node} {α β : Type}
  {r : Rule (StateM Memory) α} {r' : Rule Id α} {Q R : α → Point → Prop} {p : Point}

theorem Recites.of_quiet (h : Quiet k r r' p) (hQ : ∀ a q, r' p = .ok a q → Q a q) :
    Recites k text plain r r' Q p := by
  refine ⟨h.reaches, hQ, fun s hs => ⟨s, ?_, hs, fun _ => Or.inl⟩⟩
  rw [h.moved]
  rfl

theorem Recites.bind {f : α → Rule (StateM Memory) β} {f' : α → Rule Id β}
    {Q : β → Point → Prop} (h : Recites k text plain r r' R p)
    (hf : ∀ a q, R a q → Recites k text plain (f a) (f' a) Q q) :
    Recites k text plain (r >>= f) (r' >>= f') Q p := by
  obtain ⟨hreaches, hR, hrun⟩ := h
  cases hr : r' p with
  | ok a q =>
    rw [hr] at hreaches
    obtain ⟨hreaches', hQ, hrun'⟩ := hf a q (hR a q hr)
    refine ⟨?_, ?_, fun s hs => ?_⟩
    · rw [bind_of_ok hr]
      exact hreaches.trans hreaches'
    · rw [bind_of_ok hr]
      exact hQ
    · obtain ⟨s₁, heq, hs₁, hnew⟩ := hrun s hs
      obtain ⟨s₂, heq', hs₂, hnew'⟩ := hrun' s₁ hs₁
      rw [hr] at heq hnew
      rw [bind_of_ok hr]
      refine ⟨s₂, (run_bind_of_ok heq).trans heq', hs₂, fun o ho => ?_⟩
      rcases hnew' o ho with ho | ho
      · exact (hnew o ho).imp_right fun h => .of_reaches (passes_ok.mp h) hreaches'
      · exact Or.inr ho
  | failed c q =>
    rw [hr] at hreaches
    refine ⟨?_, ?_, fun s hs => ?_⟩
    · rw [bind_of_failed hr]
      exact hreaches
    · rw [bind_of_failed hr]
      exact nofun
    · obtain ⟨s₁, heq, hs₁, hnew⟩ := hrun s hs
      rw [hr] at heq hnew
      rw [bind_of_failed hr]
      exact ⟨s₁, run_bind_of_failed heq, hs₁, fun o ho => by simpa using hnew o ho⟩

theorem Recites.noted (h : Recites k text plain r r' Q p) (retry : Retry) :
    Recites k text plain (fun q => Strategy.remembering.note retry >>= fun _ => r q) r' Q p := by
  refine ⟨h.reaches, h.found, fun s hs => ?_⟩
  exact h.run (s.retrying retry) (hs.congr rfl)

end Recites

/-- The compounds that the plain reader reads inside `depth` others, when it starts with `total`
characters left. -/
def compoundAt (limit : Option Int) (total depth : Nat) : Rule Id Node :=
  bracketed Strategy.plain.note (Strategy.plain.expression limit (total - (depth + 1)) (depth + 1))

/-- The reader that remembers, `k` characters further on, beside the plain one. -/
def remembered (k : Nat) (text : List Char) (limit : Option Int) (total : Nat) :
    Pairing (StateM Memory) where
  strategy := .remembering
  spare := rfl
  limit := limit
  plainLimit := limit
  text := text
  place := k
  Holds := Recites k text (compoundAt limit total)
  congr hr hr' h := by
    obtain ⟨hreaches, hfound, hrun⟩ := h
    rw [← hr'] at hreaches
    refine ⟨hreaches, fun a q hq => hfound a q (hr' ▸ hq), ?_⟩
    rw [hr, hr']
    exact hrun
  weaken h hQ := ⟨h.reaches, fun a q hq => hQ a q hq (h.found a q hq), h.run⟩
  quiet := .of_quiet
  bind := .bind
  noted retry h := h.noted retry
  enter _ _ := .of_quiet (quiet_enter _ _) fun _ _ => enter_eq_ok
  reaches h := h.reaches

/-! ## 3. A set that turns out to be a dictionary -/

section Brace

variable {m : Type → Type} [Monad m] [LawfulMonad m] {P : Pairing m} {depth : Nat}
  {expr : Rule m Node} {expr' : Rule Id Node} {a e : Point} {x : Node} {c : Cause} {k o : Nat}

theorem Pairing.Inner.ne_of_ok (h : P.Inner depth expr expr') (hx : expr' a = .ok x e) :
    e ≠ a := by
  rintro rfl
  obtain ⟨w, ⟨hu, hw, hv⟩, hspan⟩ := h.sound hx
  obtain ⟨c, t, rfl, -⟩ := hw.exists_head
  have hlength := hspan.length_rest
  simp at hlength

theorem Pairing.Inner.not_follows (h : P.Inner depth expr expr') (hx : expr' a = .ok x e) :
    ¬ Follows a.rest := by
  intro hfollows
  have hstop := h.stop hfollows
  rw [hx] at hstop
  exact h.ne_of_ok hx hstop

theorem dictBody_of_ok (h : P.Inner depth expr expr') (hx : expr' a = .ok x e) :
    Pairing.dictBody expr' a.skipBlanks =
      (Pairing.afterKey expr' x >>= Pairing.afterEntry expr') e := by
  have hx : expr' a.skipBlanks = .ok x e := by
    rcases h.skipBlanks a with heq | hstop
    · exact heq.trans hx
    · rw [hx] at hstop
      exact absurd hstop (h.ne_of_ok hx)
  have hbegins := h.not_follows hx
  simp only [Follows, not_forall] at hbegins
  obtain ⟨d, hd, hstop⟩ := hbegins
  have hclose : d ≠ '}' := by
    rintro rfl
    exact hstop rfl
  rw [Pairing.dictBody, bind_of_ok (peek_of_head hd), if_neg hclose]
  exact bind_bind_of_ok hx

theorem dictBody_of_failed {d : Char} (hd : a.rest.head? = some d) (hclose : d ≠ '}')
    (hfail : expr' a = .failed c e) : Pairing.dictBody expr' a = .failed c e := by
  rw [Pairing.dictBody, bind_of_ok (peek_of_head hd), if_neg hclose]
  exact bind_bind_of_failed hfail

/-- Where no expression can be read as a key, the dictionary does not stop before what was tried. -/
theorem passes_dictBody (h : P.Inner depth expr expr') (hfail : expr' a = .failed c e)
    (hreaches : Reaches a (Outcome.stop ((Pairing.dictBody expr' : Rule Id Node) a)))
    (ho : o < e.offset + k ∨ e.rest.head? = some ',') :
    Passes k ((Pairing.dictBody expr' : Rule Id Node) a) o := by
  by_cases hbegins : ∃ d, a.rest.head? = some d ∧ d ≠ '}'
  · obtain ⟨d, hd, hclose⟩ := hbegins
    rw [dictBody_of_failed hd hclose hfail]
    exact passes_failed.mpr ho
  · have hends : ∀ d ∈ a.rest.head?, d = '}' :=
      fun d hd => by_contra fun hne => hbegins ⟨d, hd, hne⟩
    have hstop : Outcome.stop (expr' a) = a := h.stop fun d hd => hends d hd ▸ rfl
    rw [hfail] at hstop
    obtain rfl : e = a := hstop
    refine .of_reaches (ho.resolve_right fun hcomma => ?_) hreaches
    exact absurd (hends ',' hcomma) (by decide)

/-- The dictionary skips blanks before its first key, which the key does too. -/
theorem passes_dictBody_skipBlanks (h : P.Inner depth expr expr') (hfail : expr' a = .failed c e)
    (hreaches : Reaches a.skipBlanks
      (Outcome.stop ((Pairing.dictBody expr' : Rule Id Node) a.skipBlanks)))
    (ho : o < e.offset + k ∨ e.rest.head? = some ',') :
    Passes k ((Pairing.dictBody expr' : Rule Id Node) a.skipBlanks) o := by
  rcases h.skipBlanks a with heq | hstop
  · exact passes_dictBody h (heq.trans hfail) hreaches ho
  · rw [hfail] at hstop
    obtain rfl : e = a := hstop
    rcases ho with ho | hcomma
    · exact .of_reaches ho ((reaches_skipBlanks e).trans hreaches)
    · have hskip : e.skipBlanks = e := skipBlanks_of_head fun d hd => by
        obtain rfl : ',' = d := Option.some.inj (hcomma.symm.trans hd)
        rfl
      exact passes_dictBody h ((congrArg expr' hskip).trans hfail) hreaches (Or.inr hcomma)

/-- Where no comma comes next, nothing more is read. -/
theorem more_of_not_comma {n : Type → Type} [Monad n] [LawfulMonad n] {expr : Rule n Node}
    {closing : Option Char} {p : Point} (hp : p.rest.head? ≠ some ',') (count : Nat) :
    more expr closing count p = pure (.ok [] p) := by
  cases count with
  | zero => rfl
  | succ count =>
    rw [more, bind_of_pure_ok (q := p) (a := p.rest.head?) rfl, if_neg hp]
    rfl

theorem single_of_not_comma {n : Type → Type} [Monad n] [LawfulMonad n] {expr : Rule n Node}
    {closing : Option Char} {p : Point} (hp : p.rest.head? ≠ some ',') (x : Node) :
    (do
      let q ← here
      let xs ← more expr closing q.rest.length
      pure (x :: xs) : Rule n (List Node)) p = pure (.ok [x] p) := by
  rw [bind_of_pure_ok (q := p) (a := p) rfl, bind_of_pure_ok (more_of_not_comma hp _)]
  rfl

theorem afterKey_of_not_colon {p : Point} (hp : p.rest.head? ≠ some ':') (x : Node) :
    Pairing.afterKey expr' x p = .failed .expectedColon p := by
  rw [Pairing.afterKey, bind_of_ok ahead_eq, if_neg hp]
  rfl

/-- A set, behind its bracket. -/
theorem set_of_spans {n : Type → Type} [Monad n] [LawfulMonad n] {expr : Rule n Node}
    {p q : Point} (hq : Spans p ['{'] q) :
    set expr p = (do
      let xs ← elements expr none
      close '}' false
      pure (.set xs) : Rule n Node) q := by
  have hnext : (next : Rule n Char) p = pure (.ok '{' q) := congrArg pure (next_eq_ok.mpr hq)
  rw [set, bind_of_pure_ok hnext]

end Brace

/-! ## 4. Compounds -/

section Compounds

variable {k : Nat} {text : List Char} {limit : Option Int} {total depth : Nat} {p : Point}
  {expr : Rule (StateM Memory) Node} {expr' : Rule Id Node}

/-- What an attempted set leaves behind, the dictionary that starts at the same bracket passes. -/
theorem run_set (h : (remembered k text limit total).Inner (depth + 1) expr expr')
    (hp : Reached limit text depth p) (hallow : Allows limit (depth + 1))
    (hhead : p.rest.head? = some '{') {c : Cause} {q : Point} (hfail : set expr' p = .failed c q)
    {s : Memory} (hs : Recalls k text (compoundAt limit total) s) :
    ∃ s', ((set expr (p.moved k)).run s).run = (.failed c (q.moved k), s') ∧
      Recalls k text (compoundAt limit total) s' ∧
        ∀ o ∈ s'.outcomes, o ∈ s.outcomes ∨ Passes k ((dict expr' : Rule Id Node) p) o := by
  obtain ⟨a, ha⟩ := exists_spans_of_head hhead
  have hin : Reached limit text (depth + 1) a := hp.climb ha (climbs_opening rfl hallow)
  have hdict : dict expr' p = (Pairing.dictBody expr' : Rule Id Node) a.skipBlanks := by
    rw [dict, bind_of_ok (next_eq_ok.mpr ha), bind_of_ok blanks_eq]
    rfl
  have hbody : Reaches a.skipBlanks
      (Outcome.stop ((Pairing.dictBody expr' : Rule Id Node) a.skipBlanks)) :=
    (Pairing.holds_dictBody _ h hin.skipBlanks).reaches
  cases hx : expr' a with
  | failed c' e =>
    obtain ⟨s', hrun, hs', hnew⟩ := (h.holds hin).run s hs
    rw [hx] at hrun hnew
    have hset : set expr' p = .failed c' e :=
      (set_of_spans (n := Id) ha).trans (bind_of_failed (bind_of_failed hx))
    obtain ⟨rfl, rfl⟩ := Outcome.failed.inj (hset.symm.trans hfail)
    refine ⟨s', ?_, hs', fun o ho => (hnew o ho).imp_right fun ho => ?_⟩
    · rw [set_of_spans (ha.moved k)]
      exact run_bind_of_failed (run_bind_of_failed hrun)
    · rw [hdict]
      exact passes_dictBody_skipBlanks h hx hbody (passes_failed.mp ho)
  | ok x e =>
    by_cases hcomma : e.rest.head? = some ','
    · obtain ⟨s', hrun, hs', -⟩ := (Pairing.opens_set _ h hp hallow hhead).1.run s hs
      rw [hfail] at hrun
      refine ⟨s', hrun, hs', fun o _ => Or.inr ?_⟩
      have hcolon : e.rest.head? ≠ some ':' := by simp [hcomma]
      rw [hdict, dictBody_of_ok h hx, bind_of_failed (afterKey_of_not_colon hcolon x)]
      exact passes_failed.mpr (Or.inr hcomma)
    · obtain ⟨s', hrun, hs', hnew⟩ := (h.holds hin).run s hs
      rw [hx] at hrun hnew
      have hclose : Quiet k (do close '}' false; pure (Node.set [x]) : Rule (StateM Memory) Node)
          (do close '}' false; pure (Node.set [x])) e :=
        (quiet_close _ _).bind fun _ _ _ => quiet_pure _
      have hset : set expr' p = (do close '}' false; pure (Node.set [x]) : Rule Id Node) e := by
        refine (set_of_spans (n := Id) ha).trans (bind_of_ok ?_)
        exact (bind_of_ok hx).trans (single_of_not_comma (n := Id) hcomma x)
      refine ⟨s', ?_, hs', fun o ho => (hnew o ho).imp_right fun ho => ?_⟩
      · have helements : ((elements expr none (a.moved k)).run s).run =
            (.ok [x] (e.moved k), s') := by
          refine (run_bind_of_ok hrun).trans ?_
          rw [single_of_not_comma (p := e.moved k) hcomma x]
          rfl
        rw [set_of_spans (ha.moved k)]
        refine (run_bind_of_ok helements).trans ?_
        rw [hclose.moved, ← hset, hfail]
        rfl
      · rw [hdict, dictBody_of_ok h hx]
        refine .of_reaches (passes_ok.mp ho) ?_
        have he : Reached limit text (depth + 1) e := (h.holds hin).found x e hx
        exact Recites.reaches ((remembered k text limit total).bind
          (Pairing.holds_afterKey _ h he x) fun y b hy => Pairing.holds_afterEntry _ h hy y)

theorem recites_brace (h : (remembered k text limit total).Inner (depth + 1) expr expr')
    (hp : Reached limit text depth p) (hallow : Allows limit (depth + 1))
    (hhead : p.rest.head? = some '{') :
    Recites k text (compoundAt limit total)
      (attempt Strategy.remembering.note .set (set expr) (dict expr))
      (attempt Strategy.plain.note .set (set expr') (dict expr'))
      (fun _ => Reached limit text depth) p := by
  have hset : Recites k text _ (set expr) (set expr') _ p :=
    (Pairing.opens_set _ h hp hallow hhead).1
  have hdict : Recites k text _ (dict expr) (dict expr') _ p :=
    (Pairing.opens_dict _ h hp hallow hhead).1
  refine ⟨Pairing.stop_attempt hset.reaches hdict.reaches,
    fun x q hx => (attempt_eq_ok hx).elim (hset.found x q) (hdict.found x q), fun s hs => ?_⟩
  cases hfirst : set expr' p with
  | ok x q =>
    obtain ⟨s', hrun, hs', hnew⟩ := hset.run s hs
    rw [hfirst] at hrun hnew
    rw [attempt_of_ok hfirst]
    exact ⟨s', run_attempt_of_ok hrun, hs', hnew⟩
  | failed c q =>
    obtain ⟨s', hrun, hs', hnew⟩ := run_set h hp hallow hhead hfirst hs
    cases hc : c.isFinal with
    | true =>
      obtain ⟨s', hrun, hs', hnew⟩ := hset.run s hs
      rw [hfirst] at hrun hnew
      rw [attempt_of_final hfirst hc]
      exact ⟨s', run_attempt_of_final hrun hc, hs', hnew⟩
    | false =>
      obtain ⟨s'', hrun', hs'', hnew'⟩ := hdict.run
        (s'.retrying ⟨.set, (q.moved k).offset, c, (p.moved k).offset⟩) (hs'.congr rfl)
      rw [attempt_of_failed hfirst hc]
      refine ⟨s'', (run_attempt_of_failed hrun hc).trans hrun', hs'', fun o ho => ?_⟩
      rcases hnew' o ho with ho | ho
      · exact hnew o ho
      · exact Or.inr ho

/-- **A compound that is looked up first is read as without looking.** -/
theorem recites_recalled {r : Rule (StateM Memory) Node} {plain : Nat → Rule Id Node}
    {Q : Node → Point → Prop} (hp : Stands text depth p)
    (h : Recites k text plain r (plain depth) Q p)
    (hstop : ∃ c w, Spans p (c :: w) (Outcome.stop (plain depth p))) :
    Recites k text plain (recalled r) (plain depth) Q p := by
  refine ⟨h.reaches, h.found, fun s hs => ?_⟩
  cases hknown : s.outcomes[p.offset + k]? with
  | some found =>
    obtain rfl := hs depth p found hp hknown
    exact ⟨s, Memory.keeper.run_recalled_of_known hknown, hs, fun o => Or.inl⟩
  | none =>
    obtain ⟨s', hrun, hs', hnew⟩ := h.run (s.beginning (p.offset + k)) (hs.congr rfl)
    refine ⟨_, Memory.keeper.run_recalled_of_unknown hknown hrun, hs'.keeping hp, fun o ho => ?_⟩
    rcases Memory.mem_keeping ho with rfl | ho
    · refine Or.inr (Or.inl ?_)
      obtain ⟨c, w, hspan⟩ := hstop
      have hoffset := hspan.offset
      change p.offset + k < _
      simp only [List.length_cons] at hoffset
      omega
    · exact hnew o ho

end Compounds

theorem compounds_remembered (k : Nat) (text : List Char) (limit : Option Int) (total : Nat) :
    (remembered k text limit total).Compounds total where
  brace := recites_brace
  compound {depth count p r Q} hcount hp h := by
    have hplain : compoundAt limit total depth = bracketed Strategy.plain.note
        (Strategy.plain.expression limit count (depth + 1)) := by
      rw [compoundAt, show total - (depth + 1) = count by omega]
    exact hplain ▸ recites_recalled hp.stands (hplain.symm ▸ h.1) (hplain.symm ▸ h.2)

/-! ## 5. Whole texts -/

/-- The characters left when the blanks at the start of a text are skipped. -/
def leftAtStart (text : List Char) : Nat :=
  (Point.start text).skipBlanks.rest.length

/-- **A whole text, `k` characters further on.** -/
theorem recites_document (k : Nat) (text : List Char) (limit : Option Int) :
    Recites k text (compoundAt limit (leftAtStart text)) (Strategy.remembering.document limit)
      (Strategy.plain.document limit) (fun _ q => Reached limit text 0 q ∧ q.rest = [])
      (.start text) :=
  Pairing.holds_document (compounds_remembered k text limit (leftAtStart text))

/-- What callers get of an outcome: the tree, or the error with the offset where the rules
stopped. -/
def Outcome.result : Outcome Node → Except Fault Tree
  | .ok root _ => .ok ⟨root⟩
  | .failed c stop => .error ((Fault.ofCause c).annotate stop.offset)

/-- A reading of a session, by what the rules find and leave in the memory. -/
theorem Session.read_eq {s : Session} {found : Outcome Node} {memory : Memory}
    (h : ((Strategy.remembering.document s.limit s.point).run s.memory).run = (found, memory)) :
    s.read = (found.result, ⟨s.limit, found.stop, memory⟩) := by
  have hrun : (Strategy.remembering.document s.limit s.point).run s.memory = (found, memory) := h
  unfold Session.read
  rw [hrun]
  cases found <;> rfl

/-- **A first reading gives what the rules alone give.** -/
theorem read_eq_result (text : String) (limit : Option Int) :
    read text limit = Outcome.result (Strategy.plain.document limit (.start text.toList)) := by
  obtain ⟨memory, hrun, -⟩ := (recites_document 0 text.toList limit).run .empty
    (recalls_of_behind fun o ho => by simp [Memory.empty] at ho)
  rw [Outcome.moved_zero] at hrun
  exact congrArg Prod.fst (Session.read_eq (s := .start text limit) hrun)

/-- A first reading finds the trees that the plain rules find. -/
theorem read_eq_ok {text : String} {limit : Option Int} {t : Tree} :
    read text limit = .ok t ↔
      ∃ q, Strategy.plain.document limit (.start text.toList) = .ok t.root q := by
  rw [read_eq_result]
  cases h : Strategy.plain.document limit (.start text.toList) with
  | ok root q =>
    constructor
    · intro ht
      obtain rfl := Except.ok.inj ht
      exact ⟨q, rfl⟩
    · rintro ⟨q', hq⟩
      obtain ⟨rfl, -⟩ := Outcome.ok.inj hq
      rfl
  | failed c q => exact ⟨nofun, nofun⟩

/-- **Remembering is never seen from outside**: a first reading gives the tree that the rules alone
give, or fails with the same kind of error, for the same reason and at the same position. -/
theorem read_eq_readPlainly (text : String) (limit : Option Int) :
    read text limit = readPlainly text limit :=
  (read_eq_result text limit).trans rfl

end Literals.Reader
