/-
# Every compound is read once

A set and a dictionary start at the same bracket, and so may what is inside them: a reader that
forgets reads a compound twice for every brace around it.  The reader that remembers begins each
one at most once, however many readings a session makes, with or without a limit, and whether they
succeed or not (`begun_once`).  So it begins no more compounds than the text has opening brackets.

`Frugal` is the statement about one rule at one point.  What carries the argument is that **a
compound that was begun is known when its rule has ended**, and is then never begun again.  The
exception is a failure for too many open brackets, which is not kept; but that one ends the whole
reading, and it ends behind every compound that was open.

An outcome that is kept stays as it is.  That is said of every moment of a reading, not only of its
end, by a second reader that never replaces an outcome (`Strategy.writingOnce`): **the two do the
same**.
-/
import Mathlib.Data.List.Perm.Subperm
import Literals.Proofs.Sessions

namespace Literals.Reader

open Grammar Rule

/-! ## 1. How a memory grows -/

/-- An opening bracket stands at the offset, at the point or behind it. -/
def BracketFrom (b : Point) (o : Nat) : Prop :=
  ∃ q, Reaches b q ∧ q.offset = o ∧ ∃ c ∈ q.rest.head?, isOpening c = true

theorem BracketFrom.mono {a b : Point} {o : Nat} (h : BracketFrom b o) (hab : Reaches a b) :
    BracketFrom a o := by
  obtain ⟨q, hq, ho, hc⟩ := h
  exact ⟨q, hab.trans hq, ho, hc⟩

theorem BracketFrom.le {b : Point} {o : Nat} (h : BracketFrom b o) : b.offset ≤ o := by
  obtain ⟨q, hq, rfl, -⟩ := h
  exact hq.offset_le

/-- From the one memory to the other, compounds were begun at the offsets `fresh`, all at brackets
from `b` on and none of them known before.  What was known is known unchanged. -/
structure Memory.Grows (b : Point) (s : Memory) (fresh : List Nat) (s' : Memory) : Prop where
  begun : s'.begun = fresh ++ s.begun
  nodup : fresh.Nodup
  bracket : ∀ o ∈ fresh, BracketFrom b o
  unknown : ∀ o ∈ fresh, o ∉ s.outcomes
  kept : ∀ (o : Nat) (found : Outcome Node), s.outcomes[o]? = some found →
    s'.outcomes[o]? = some found
  added : ∀ o ∈ s'.outcomes, o ∈ s.outcomes ∨ b.offset ≤ o

namespace Memory.Grows

variable {a b p : Point} {s s' s'' : Memory} {fresh fresh' : List Nat} {o : Nat} {c : Char}

theorem refl (b : Point) (s : Memory) : s.Grows b [] s :=
  ⟨rfl, .nil, nofun, nofun, fun _ _ h => h, fun _ => Or.inl⟩

theorem mem (h : s.Grows b fresh s') (ho : o ∈ s.outcomes) : o ∈ s'.outcomes := by
  rw [Std.HashMap.mem_iff_isSome_getElem?] at ho ⊢
  obtain ⟨found, hfound⟩ := Option.isSome_iff_exists.mp ho
  rw [h.kept o found hfound]
  rfl

/-- Twice in a row, where everything that was begun first is known afterwards. -/
theorem trans (h : s.Grows b fresh s') (h' : s'.Grows b fresh' s'')
    (hknown : ∀ o ∈ fresh, o ∈ s'.outcomes) : s.Grows b (fresh' ++ fresh) s'' where
  begun := by rw [h'.begun, h.begun, List.append_assoc]
  nodup := by
    refine List.nodup_append.mpr ⟨h'.nodup, h.nodup, fun o ho o' ho' heq => ?_⟩
    exact h'.unknown o ho (heq ▸ hknown o' ho')
  bracket o ho := (List.mem_append.mp ho).elim (h'.bracket o) (h.bracket o)
  unknown o ho := (List.mem_append.mp ho).elim (fun ho hs => h'.unknown o ho (h.mem hs))
    (h.unknown o)
  kept o found ho := h'.kept o found (h.kept o found ho)
  added o ho := (h'.added o ho).elim (h.added o) Or.inr

/-- What is noted about retries plays no part. -/
theorem congr_left {t : Memory} (h : t.Grows b fresh s') (hbegun : t.begun = s.begun)
    (houtcomes : t.outcomes = s.outcomes) : s.Grows b fresh s' where
  begun := hbegun ▸ h.begun
  nodup := h.nodup
  bracket := h.bracket
  unknown := houtcomes ▸ h.unknown
  kept := houtcomes ▸ h.kept
  added := houtcomes ▸ h.added

/-- A compound is begun where nothing is known, and goes on behind its bracket. -/
theorem begins (h : (s.beginning p.offset).Grows a fresh s')
    (hb : Reaches b p) (ha : Spans p [c] a) (hc : isOpening c = true)
    (hunknown : p.offset ∉ s.outcomes) : s.Grows b (fresh ++ [p.offset]) s' where
  begun := by rw [h.begun, List.append_assoc]; rfl
  nodup := by
    refine List.nodup_append.mpr ⟨h.nodup, List.pairwise_singleton _ _, fun o ho o' ho' heq => ?_⟩
    have hle := (h.bracket o ho).le
    have hoffset : a.offset = p.offset + 1 := ha.offset
    rw [heq, List.mem_singleton.mp ho'] at hle
    omega
  bracket := by
    simp only [List.forall_mem_append, List.forall_mem_singleton]
    exact ⟨fun o ho => (h.bracket o ho).mono (hb.trans ha.reaches), p, hb, rfl, c, ha.head, hc⟩
  unknown := by
    simp only [List.forall_mem_append, List.forall_mem_singleton]
    exact ⟨h.unknown, hunknown⟩
  kept := h.kept
  added o ho := (h.added o ho).imp_right (hb.trans ha.reaches).offset_le.trans

/-- What is found may be kept where nothing was known. -/
theorem insert (h : s.Grows b fresh s') (ho : o ∉ s.outcomes) (hb : b.offset ≤ o)
    (found : Outcome Node) :
    s.Grows b fresh { s' with outcomes := s'.outcomes.insert o found } where
  begun := h.begun
  nodup := h.nodup
  bracket := h.bracket
  unknown := h.unknown
  kept o' found' hfound := by
    have hmem : o' ∈ s.outcomes := by
      rw [Std.HashMap.mem_iff_isSome_getElem?, hfound]
      rfl
    have hne : ¬ (o == o') = true := by
      rw [beq_iff_eq]
      rintro rfl
      exact ho hmem
    rw [Std.HashMap.getElem?_insert, if_neg hne]
    exact h.kept o' found' hfound
  added o' ho' := by
    rcases Std.HashMap.mem_insert.mp ho' with heq | ho'
    · rw [beq_iff_eq] at heq
      exact Or.inr (heq ▸ hb)
    · exact h.added o' ho'

theorem keeping (h : s.Grows b fresh s') (ho : o ∉ s.outcomes) (hb : b.offset ≤ o)
    (found : Outcome Node) : s.Grows b fresh (s'.keeping o found) := by
  rw [Memory.keeping]
  split
  next => exact h.insert ho hb found
  next => exact h

end Memory.Grows

/-- What is kept under an offset of the text stops there or behind. -/
def Memory.Placed (text : List Char) (s : Memory) : Prop :=
  ∀ (p : Point) (found : Outcome Node), Reaches (.start text) p →
    s.outcomes[p.offset]? = some found → Reaches p found.stop

theorem Memory.Placed.keeping {text : List Char} {s : Memory} {p : Point} {found : Outcome Node}
    (hs : s.Placed text) (hp : Reaches (.start text) p) (hstop : Reaches p found.stop) :
    (s.keeping p.offset found).Placed text := by
  intro q found' hq hfound
  rw [Memory.keeping] at hfound
  split at hfound
  next =>
    simp only [Std.HashMap.getElem?_insert, beq_iff_eq] at hfound
    split at hfound
    next heq =>
      obtain rfl := hp.unique hq heq
      exact Option.some.inj hfound ▸ hstop
    next => exact hs q found' hq hfound
  next => exact hs q found' hq hfound

/-! ## 2. A reader that never replaces an outcome -/

/-- The outcome of a compound is kept, where it is lasting and nothing is kept under the offset by
then. -/
def Memory.keepingOnce (s : Memory) (o : Nat) (found : Outcome Node) : Memory :=
  if o ∈ s.outcomes then s else s.keeping o found

/-- The reader that remembers compounds and replaces nothing that it remembers. -/
def Strategy.writingOnce : Strategy (StateM Memory) :=
  { Strategy.remembering with
    compound := { Memory.keeper with keeping := Memory.keepingOnce }.recalled }

/-! ## 3. Rules that begin each compound once -/

/-- The rule failed for good, so that no alternative is tried. -/
def Outcome.Aborts {α : Type} (found : Outcome α) : Prop :=
  ∃ c q, found = .failed c q ∧ c.isFinal = true

theorem Outcome.aborts_of_not_lasting {found : Outcome Node} (h : found.isLasting = false) :
    found.Aborts := by
  cases found with
  | ok x q => cases h
  | failed c q => exact ⟨c, q, rfl, by simpa [Outcome.isLasting] using h⟩

theorem Outcome.not_aborts_ok {α : Type} (x : α) (q : Point) : ¬ (Outcome.ok x q).Aborts := by
  rintro ⟨_, _, hfailed, -⟩
  cases hfailed

theorem Outcome.not_aborts_failed {α : Type} {c : Cause} (hc : c.isFinal = false) (q : Point) :
    ¬ (Outcome.failed c q : Outcome α).Aborts := by
  rintro ⟨_, _, hfailed, hfinal⟩
  obtain ⟨rfl, rfl⟩ := Outcome.failed.inj hfailed
  rw [hc] at hfinal
  cases hfinal

/-- Where reading goes on, everything that was begun is known. -/
theorem known_of_not_aborts {α : Type} {found : Outcome α} {s : Memory} {fresh : List Nat}
    (h : ∀ o ∈ fresh, o ∈ s.outcomes ∨ found.Aborts ∧ o < found.stop.offset)
    (hgoes : ¬ found.Aborts) : ∀ o ∈ fresh, o ∈ s.outcomes :=
  fun o ho => (h o ho).resolve_right fun haborts => hgoes haborts.1

/-- What was known before is known afterwards too. -/
theorem Memory.Grows.known_append {α : Type} {found : Outcome α} {b : Point} {s s' : Memory}
    {fresh fresh' : List Nat} (h : s.Grows b fresh' s') (hknown : ∀ o ∈ fresh, o ∈ s.outcomes)
    (h' : ∀ o ∈ fresh', o ∈ s'.outcomes ∨ found.Aborts ∧ o < found.stop.offset) :
    ∀ o ∈ fresh' ++ fresh, o ∈ s'.outcomes ∨ found.Aborts ∧ o < found.stop.offset := by
  rw [List.forall_mem_append]
  exact ⟨h', fun o ho => Or.inl (h.mem (hknown o ho))⟩

/-- From every memory, the rules `r` and `t` at the point do the same.  They begin no compound
twice, none before `b`, and none that is known; and afterwards it is known, unless they failed for
good behind its bracket. -/
def Frugal {α : Type} (text : List Char) (b : Point) (r t : Rule (StateM Memory) α)
    (p : Point) : Prop :=
  ∀ s, s.Placed text → ∃ found s' fresh, ((r p).run s).run = (found, s') ∧
    ((t p).run s).run = (found, s') ∧ s'.Placed text ∧ Reaches b found.stop ∧
    s.Grows b fresh s' ∧ ∀ o ∈ fresh, o ∈ s'.outcomes ∨ found.Aborts ∧ o < found.stop.offset

section Frugal

variable {α β : Type} {text : List Char} {a b p q : Point} {r t r₁ t₁ : Rule (StateM Memory) α}
  {r' : Rule Id α} {k l : α → Rule (StateM Memory) β}

/-- Only what the rules do at the point matters. -/
theorem Frugal.congr (hr : r p = r₁ q) (ht : t p = t₁ q) (h : Frugal text b r₁ t₁ q) :
    Frugal text b r t p := by
  unfold Frugal
  rw [hr, ht]
  exact h

/-- A rule that leaves the memory alone. -/
theorem frugal_of_pure {found : Outcome α} (h : r p = pure found) (hb : Reaches b found.stop) :
    Frugal text b r r p := by
  have hrun : ∀ s, ((r p).run s).run = (found, s) := fun s => by
    rw [h]
    rfl
  exact fun s hs => ⟨found, s, [], hrun s, hrun s, hs, hb, .refl b s, nofun⟩

theorem frugal_of_quiet (h : Quiet 0 r r' p) (hb : Reaches b p) : Frugal text b r r p := by
  refine frugal_of_pure h.moved ?_
  rw [Outcome.moved_zero]
  exact hb.trans h.reaches

/-- **A sequence of frugal rules is frugal.** -/
theorem Frugal.bind (h : Frugal text b r t p)
    (hk : ∀ a q, Reaches b q → Frugal text b (k a) (l a) q) :
    Frugal text b (r >>= k) (t >>= l) p := by
  intro s hs
  obtain ⟨found, s₁, fresh, hrun, htwin, hs₁, hreaches, hgrows, hclosed⟩ := h s hs
  cases found with
  | ok a q =>
    obtain ⟨found', s₂, fresh', hrun', htwin', hs₂, hreaches', hgrows', hclosed'⟩ :=
      hk a q hreaches s₁ hs₁
    have hknown := known_of_not_aborts hclosed (Outcome.not_aborts_ok a q)
    exact ⟨found', s₂, fresh' ++ fresh, (run_bind_of_ok hrun).trans hrun',
      (run_bind_of_ok htwin).trans htwin', hs₂, hreaches', hgrows.trans hgrows' hknown,
      hgrows'.known_append hknown hclosed'⟩
  | failed c q =>
    refine ⟨.failed c q, s₁, fresh, run_bind_of_failed hrun, run_bind_of_failed htwin, hs₁,
      hreaches, hgrows, fun o ho => ?_⟩
    refine (hclosed o ho).imp_right ?_
    rintro ⟨⟨c', q', hfailed, hfinal⟩, hlt⟩
    obtain ⟨rfl, rfl⟩ := Outcome.failed.inj hfailed
    exact ⟨⟨c, q, rfl, hfinal⟩, hlt⟩

/-- A rule that leaves the memory alone is left behind. -/
theorem frugal_bind_quiet (h : Quiet 0 r r' p) (hb : Reaches b p)
    (hk : ∀ a q, r' p = .ok a q → Reaches b q → Frugal text b (k a) (l a) q) :
    Frugal text b (r >>= k) (r >>= l) p := by
  have hmoved : r p = pure (r' p) := h.moved.trans (by rw [Outcome.moved_zero])
  have hreaches := hb.trans h.reaches
  cases hr : r' p with
  | ok a q =>
    rw [hr] at hmoved hreaches
    exact .congr (bind_of_pure_ok hmoved) (bind_of_pure_ok hmoved) (hk a q hr hreaches)
  | failed c q =>
    rw [hr] at hmoved hreaches
    have hfail : Frugal text b (fail c : Rule (StateM Memory) β) (fail c) q :=
      frugal_of_pure rfl hreaches
    exact hfail.congr (bind_of_pure_failed hmoved) (bind_of_pure_failed hmoved)

theorem frugal_pure (x : α) (hb : Reaches b p) : Frugal text b (pure x) (pure x) p :=
  frugal_of_quiet (quiet_pure x) hb

theorem frugal_fail (e : Cause) (hb : Reaches b p) :
    Frugal text b (fail e : Rule (StateM Memory) α) (fail e) p :=
  frugal_of_quiet (quiet_fail e) hb

theorem Frugal.ite {c : Prop} [Decidable c] (h : c → Frugal text b r t p)
    (h' : ¬ c → Frugal text b r₁ t₁ p) :
    Frugal text b (if c then r else r₁) (if c then t else t₁) p := by
  by_cases hc : c
  · rw [if_pos hc, if_pos hc]
    exact h hc
  · rw [if_neg hc, if_neg hc]
    exact h' hc

theorem frugal_here {k l : Point → Rule (StateM Memory) β} (hk : Frugal text b (k p) (l p) p) :
    Frugal text b (here >>= k) (here >>= l) p :=
  hk.congr (bind_of_pure_ok rfl) (bind_of_pure_ok rfl)

theorem frugal_goTo {k l : Unit → Rule (StateM Memory) β} (hk : Frugal text b (k ()) (l ()) q) :
    Frugal text b (goTo q >>= k) (goTo q >>= l) p :=
  hk.congr (bind_of_pure_ok rfl) (bind_of_pure_ok rfl)

/-- **Two alternatives from one point**: what the first one begins is known to the second. -/
theorem Frugal.attempt {trial : Trial} {first first' second second' : Rule (StateM Memory) Node}
    (h : Frugal text b first first' p) (h' : Frugal text b second second' p) :
    Frugal text b (attempt Strategy.remembering.note trial first second)
      (attempt Strategy.remembering.note trial first' second') p := by
  intro s hs
  obtain ⟨found, s₁, fresh, hrun, htwin, hs₁, hreaches, hgrows, hclosed⟩ := h s hs
  cases found with
  | ok x q =>
    exact ⟨_, s₁, fresh, run_attempt_of_ok hrun, run_attempt_of_ok htwin, hs₁, hreaches, hgrows,
      hclosed⟩
  | failed c q =>
    cases hc : c.isFinal with
    | true =>
      exact ⟨_, s₁, fresh, run_attempt_of_final hrun hc, run_attempt_of_final htwin hc, hs₁,
        hreaches, hgrows, hclosed⟩
    | false =>
      have hknown := known_of_not_aborts hclosed (Outcome.not_aborts_failed hc q)
      obtain ⟨found', s₂, fresh', hrun', htwin', hs₂, hreaches', hgrows', hclosed'⟩ :=
        h' (s₁.retrying ⟨trial, q.offset, c, p.offset⟩) hs₁
      have hgrows' : s₁.Grows b fresh' s₂ := hgrows'.congr_left rfl rfl
      exact ⟨found', s₂, fresh' ++ fresh, (run_attempt_of_failed hrun hc).trans hrun',
        (run_attempt_of_failed htwin hc).trans htwin', hs₂, hreaches',
        hgrows.trans hgrows' hknown, hgrows'.known_append hknown hclosed'⟩

/-- **A compound that is looked up first is begun at most once**: its rule is frugal behind the
bracket, so that it begins no compound where it stands itself. -/
theorem Frugal.recalled {r t : Rule (StateM Memory) Node} {c : Char} (h : Frugal text a r t p)
    (htext : Reaches (.start text) b) (hb : Reaches b p) (ha : Spans p [c] a)
    (hc : isOpening c = true) :
    Frugal text b (Strategy.remembering.compound r) (Strategy.writingOnce.compound t) p := by
  intro s hs
  cases hknown : s.outcomes[p.offset]? with
  | some found =>
    have hstop : Reaches p found.stop := hs p found (htext.trans hb) hknown
    exact ⟨found, s, [], Keeper.run_recalled_of_known _ hknown,
      Keeper.run_recalled_of_known _ hknown, hs, hb.trans hstop, .refl b s, nofun⟩
  | none =>
    obtain ⟨found, s', fresh, hrun, htwin, hs', hreaches, hgrows, hclosed⟩ :=
      h (s.beginning p.offset) hs
    have hunknown : p.offset ∉ s.outcomes := by
      simp [Std.HashMap.mem_iff_isSome_getElem?, hknown]
    have hbehind : p.offset < a.offset := by
      rw [ha.offset]
      exact Nat.lt_succ_self _
    have hunwritten : p.offset ∉ s'.outcomes := fun ho =>
      (hgrows.added _ ho).elim hunknown (not_le.mpr hbehind)
    have hgrows : s.Grows b (fresh ++ [p.offset]) s' := hgrows.begins hb ha hc hunknown
    have hstop : Reaches p found.stop := ha.reaches.trans hreaches
    have hcases : ∀ o ∈ fresh ++ [p.offset],
        o = p.offset ∨ o ∈ s'.outcomes ∨ found.Aborts ∧ o < found.stop.offset := by
      intro o ho
      rcases List.mem_append.mp ho with ho | ho
      · exact Or.inr (hclosed o ho)
      · exact Or.inl (List.mem_singleton.mp ho)
    -- Nothing is kept under the offset by then, so nothing has to be replaced.
    have honce : s'.keepingOnce p.offset found = s'.keeping p.offset found := if_neg hunwritten
    refine ⟨found, s'.keeping p.offset found, fresh ++ [p.offset],
      Keeper.run_recalled_of_unknown _ hknown hrun,
      honce ▸ Keeper.run_recalled_of_unknown _ hknown htwin,
      hs'.keeping (htext.trans hb) hstop, hb.trans hstop,
      hgrows.keeping hunknown hb.offset_le found, fun o ho => ?_⟩
    cases hlasting : found.isLasting with
    | true =>
      rw [Memory.keeping, if_pos hlasting]
      rcases hcases o ho with rfl | ho | ho
      · exact Or.inl Std.HashMap.mem_insert_self
      · exact Or.inl (Std.HashMap.mem_insert.mpr (Or.inr ho))
      · exact Or.inr ho
    | false =>
      rw [Memory.keeping, if_neg (by simp [hlasting])]
      rcases hcases o ho with rfl | ho
      · exact Or.inr ⟨Outcome.aborts_of_not_lasting hlasting, hbehind.trans_le hreaches.offset_le⟩
      · exact ho

end Frugal

/-! ## 4. The rules -/

section Rules

variable {text : List Char} {a b p : Point} {expr expr' : Rule (StateM Memory) Node} {c : Char}

theorem frugal_more (hexpr : ∀ p, Reaches b p → Frugal text b expr expr' p)
    (closing : Option Char) (count : Nat) (hp : Reaches b p) :
    Frugal text b (more expr closing count) (more expr' closing count) p := by
  induction count generalizing p with
  | zero => exact frugal_pure [] hp
  | succ count ih =>
    refine (frugal_of_quiet quiet_ahead hp).bind fun c q hq => .ite (fun _ => ?_)
      fun _ => frugal_pure [] hq
    refine frugal_here ((frugal_of_quiet quiet_next hq).bind fun _ _ h => ?_)
    refine (frugal_of_quiet quiet_blanks h).bind fun _ _ h => ?_
    refine (frugal_of_quiet quiet_ahead h).bind fun _ _ h => .ite (fun _ => ?_) fun _ => ?_
    · exact frugal_goTo (frugal_pure [] hq)
    · exact (hexpr _ h).bind fun _ _ h => (ih h).bind fun _ _ h => frugal_pure _ h

theorem frugal_elements (hexpr : ∀ p, Reaches b p → Frugal text b expr expr' p)
    (closing : Option Char) (hp : Reaches b p) :
    Frugal text b (elements expr closing) (elements expr' closing) p :=
  (hexpr p hp).bind fun _ _ h => frugal_here <|
    (frugal_more hexpr closing _ h).bind fun _ _ h => frugal_pure _ h

theorem frugal_entry (hexpr : ∀ p, Reaches b p → Frugal text b expr expr' p)
    (hp : Reaches b p) : Frugal text b (entry expr) (entry expr') p := by
  refine (hexpr p hp).bind fun _ _ h => (frugal_of_quiet quiet_ahead h).bind fun _ _ h =>
    .ite (fun _ => ?_) fun _ => frugal_fail _ h
  refine (frugal_of_quiet quiet_next h).bind fun _ _ h => ?_
  exact (hexpr _ h).bind fun _ _ h => frugal_pure _ h

theorem frugal_moreEntries (hexpr : ∀ p, Reaches b p → Frugal text b expr expr' p)
    (count : Nat) (hp : Reaches b p) :
    Frugal text b (moreEntries expr count) (moreEntries expr' count) p := by
  induction count generalizing p with
  | zero => exact frugal_pure [] hp
  | succ count ih =>
    refine (frugal_of_quiet quiet_ahead hp).bind fun _ _ h => .ite (fun _ => ?_)
      fun _ => frugal_pure [] h
    refine (frugal_of_quiet quiet_next h).bind fun _ _ h => ?_
    exact (frugal_entry hexpr h).bind fun _ _ h => (ih h).bind fun _ _ h => frugal_pure _ h

theorem frugal_close (d : Char) (trailing : Bool) (x : Node) (hp : Reaches b p) :
    Frugal text b (do close d trailing; pure x) (do close d trailing; pure x) p :=
  (frugal_of_quiet (quiet_close d trailing) hp).bind fun _ _ h => frugal_pure x h

/-- Behind its first character a rule goes on. -/
theorem frugal_next {k l : Char → Rule (StateM Memory) Node} (ha : Spans p [c] a)
    (hk : Frugal text a (k c) (l c) a) : Frugal text a (next >>= k) (next >>= l) p :=
  hk.congr (bind_of_pure_ok (congrArg pure (next_eq_ok.mpr ha)))
    (bind_of_pure_ok (congrArg pure (next_eq_ok.mpr ha)))

/-- Blanks may follow the bracket, and then either the closing one or what is inside. -/
theorem frugal_inside {d : Char} {empty : Node} {k l : Rule (StateM Memory) Node}
    (hp : Reaches b p) (hk : ∀ p, Reaches b p → Frugal text b k l p) :
    Frugal text b
      (do
        Rule.blanks
        if (← Rule.peek) = d then
          let _ ← Rule.next
          pure empty
        else k)
      (do
        Rule.blanks
        if (← Rule.peek) = d then
          let _ ← Rule.next
          pure empty
        else l) p := by
  refine (frugal_of_quiet quiet_blanks hp).bind fun _ _ h => ?_
  refine (frugal_of_quiet quiet_peek h).bind fun _ _ h => .ite (fun _ => ?_) fun _ => hk _ h
  exact (frugal_of_quiet quiet_next h).bind fun _ _ h => frugal_pure _ h

theorem frugal_list (hexpr : ∀ p, Reaches a p → Frugal text a expr expr' p)
    (ha : Spans p [c] a) : Frugal text a (list expr) (list expr') p :=
  frugal_next ha <| frugal_inside (.refl a) fun _ h =>
    (frugal_elements hexpr none h).bind fun _ _ h => frugal_close _ _ _ h

theorem frugal_set (hexpr : ∀ p, Reaches a p → Frugal text a expr expr' p)
    (ha : Spans p [c] a) : Frugal text a (set expr) (set expr') p :=
  frugal_next ha <| (frugal_elements hexpr none (.refl a)).bind fun _ _ h => frugal_close _ _ _ h

theorem frugal_dict (hexpr : ∀ p, Reaches a p → Frugal text a expr expr' p)
    (ha : Spans p [c] a) : Frugal text a (dict expr) (dict expr') p :=
  frugal_next ha <| frugal_inside (.refl a) fun _ h =>
    (frugal_entry hexpr h).bind fun _ _ h => frugal_here <|
      (frugal_moreEntries hexpr _ h).bind fun _ _ h => frugal_close _ _ _ h

theorem frugal_tuple (hexpr : ∀ p, Reaches a p → Frugal text a expr expr' p)
    (ha : Spans p [c] a) : Frugal text a (tuple expr) (tuple expr') p := by
  refine frugal_next ha (frugal_inside (.refl a) fun _ h => ?_)
  refine (hexpr _ h).bind fun x _ h => (frugal_of_quiet quiet_ahead h).bind fun d _ h => ?_
  cases d with
  | none => exact frugal_fail _ h
  | some d =>
    refine .ite (fun _ => ?_) fun _ => frugal_fail _ h
    refine (frugal_of_quiet quiet_next h).bind fun _ _ h => ?_
    refine (frugal_of_quiet quiet_blanks h).bind fun _ _ h => ?_
    refine (frugal_of_quiet quiet_ahead h).bind fun _ _ h => .ite (fun _ => ?_) fun _ => ?_
    · exact (frugal_of_quiet quiet_next h).bind fun _ _ h => frugal_pure _ h
    · exact (frugal_elements hexpr _ h).bind fun _ _ h => frugal_close _ _ _ h

/-- A complex number in parentheses is read from behind the first one on. -/
theorem frugal_complex (ha : Spans p ['('] a) :
    Frugal text a (Rule.lift complex) (Rule.lift complex) p := by
  have hinside : Reaches a (Outcome.stop ((do
      let re ← part
      let im ← imaginary
      Rule.mark ')' .expectedComplexClose
      pure (.complex re im) : Rule Id Node) a)) :=
    (quiet_part (k := 0).bind fun _ _ _ => quiet_imaginary.bind fun _ _ _ =>
      (quiet_mark _ _).bind fun _ _ _ => quiet_pure _).reaches
  have hlift : (Rule.lift complex : Rule (StateM Memory) Node) p = pure (complex p) := rfl
  refine frugal_of_pure hlift ?_
  rw [complex, bind_of_ok (peek_of_head ha.head), if_pos rfl, bind_of_ok (next_eq_ok.mpr ha)]
  exact hinside

/-- **A compound is frugal behind its bracket** when the expressions inside are. -/
theorem frugal_bracketed (hexpr : ∀ p, Reaches a p → Frugal text a expr expr' p)
    (ha : Spans p [c] a) (hc : isOpening c = true) :
    Frugal text a (bracketed Strategy.remembering.note expr)
      (bracketed Strategy.writingOnce.note expr') p := by
  have hpeek : (peek : Rule (StateM Memory) Char) p = pure (.ok c p) :=
    congrArg pure (peek_of_head ha.head)
  refine Frugal.congr (bind_of_pure_ok hpeek) (bind_of_pure_ok hpeek) ?_
  refine .ite (fun _ => frugal_list hexpr ha) fun hlist => .ite (fun _ => ?_) fun hbrace => ?_
  · exact (frugal_set hexpr ha).attempt (frugal_dict hexpr ha)
  · obtain rfl : c = '(' := by simpa [isOpening, hlist, hbrace] using hc
    exact (frugal_complex ha).attempt (frugal_tuple hexpr ha)

theorem frugal_single (hp : Reaches b p) :
    Frugal text b (single Strategy.remembering.note) (single Strategy.writingOnce.note) p := by
  refine (frugal_of_quiet quiet_peek hp).bind fun _ _ h => ?_
  refine .ite (fun _ => frugal_of_quiet quiet_noneLiteral.lift h) fun _ => ?_
  refine .ite (fun _ => frugal_of_quiet quiet_bool.lift h) fun _ => ?_
  refine .ite (fun _ => frugal_of_quiet quiet_string.lift h) fun _ => ?_
  refine (frugal_of_quiet quiet_complex.lift h).attempt ?_
  exact (frugal_of_quiet quiet_float.lift h).attempt (frugal_of_quiet quiet_integer.lift h)

/-- **Every expression is frugal.**  The induction is on the number of characters left. -/
theorem frugal_expression (limit : Option Int) (count depth : Nat)
    (htext : Reaches (.start text) b) (hp : Reaches b p) :
    Frugal text b (Strategy.remembering.expression limit count depth)
      (Strategy.writingOnce.expression limit count depth) p := by
  induction count generalizing depth b p with
  | zero => exact frugal_fail _ hp
  | succ count ih =>
    refine (frugal_of_quiet quiet_blanks hp).bind fun _ q hq => ?_
    refine frugal_bind_quiet quiet_peek hq fun c q' hc _ => ?_
    obtain ⟨hhead, rfl⟩ := peek_eq_ok.mp hc
    have hend : ∀ (x : Node) q, Reaches b q →
        Frugal text b (do Rule.blanks; pure x) (do Rule.blanks; pure x) q :=
      fun x _ h => (frugal_of_quiet quiet_blanks h).bind fun _ _ h => frugal_pure x h
    refine .ite (fun hopen => ?_) fun _ => (frugal_single hq).bind hend
    refine frugal_bind_quiet (quiet_enter limit (depth + 1)) hq fun _ q' hq' _ => ?_
    obtain rfl := (enter_eq_ok hq').1
    obtain ⟨a, ha⟩ := exists_spans_of_head hhead
    have hinside : Reaches (.start text) a := (htext.trans hq).trans ha.reaches
    have hbracketed := frugal_bracketed (fun p hp => ih (depth + 1) hinside hp) ha hopen
    exact (hbracketed.recalled htext hq ha hopen).bind hend

/-- **Every reading is frugal.** -/
theorem frugal_document (limit : Option Int) (htext : Reaches (.start text) b)
    (hp : Reaches b p) : Frugal text b (Strategy.remembering.document limit)
      (Strategy.writingOnce.document limit) p := by
  refine (frugal_of_quiet quiet_blanks hp).bind fun _ _ h => frugal_here ?_
  refine .ite (fun _ => frugal_fail _ h) fun _ => ?_
  refine (frugal_expression limit _ 0 htext h).bind fun x _ h => ?_
  refine (frugal_of_quiet quiet_ahead h).bind fun _ _ h => ?_
  exact .ite (fun _ => frugal_pure x h) fun _ => frugal_fail _ h

end Rules

/-! ## 5. Sessions -/

/-- In the session so far no compound was begun twice, and each at a bracket of the text.  They lie
before the point reached, or a comma comes next, where no reading begins anything. -/
structure Session.Thrifty (text : List Char) (s : Session) : Prop where
  settled : s.Settled text
  placed : s.memory.Placed text
  nodup : s.memory.begun.Nodup
  bracket : ∀ o ∈ s.memory.begun, BracketFrom (.start text) o
  behind : (∀ o ∈ s.memory.begun, o < s.point.offset) ∨ s.point.rest.head? = some ','

namespace Session.Thrifty

variable {text : List Char} {s : Session}

theorem run (h : s.Thrifty text) : ∃ found memory fresh,
    ((Strategy.remembering.document s.limit s.point).run s.memory).run = (found, memory) ∧
      ((Strategy.writingOnce.document s.limit s.point).run s.memory).run = (found, memory) ∧
      memory.Placed text ∧ Reaches s.point found.stop ∧
      s.memory.Grows s.point fresh memory ∧
      ∀ o ∈ fresh, o ∈ memory.outcomes ∨ found.Aborts ∧ o < found.stop.offset :=
  frugal_document s.limit h.settled.reaches (.refl s.point) s.memory h.placed

/-- What a session has kept, the next reading leaves as it is. -/
theorem kept (h : s.Thrifty text) {o : Nat} {found : Outcome Node}
    (hfound : s.memory.outcomes[o]? = some found) :
    s.read.2.memory.outcomes[o]? = some found := by
  obtain ⟨_, memory, fresh, hrun, -, -, -, hgrows, -⟩ := h.run
  rw [Session.read_eq hrun]
  exact hgrows.kept o found hfound

/-- **A reading that may replace outcomes replaces none.** -/
theorem run_writingOnce (h : s.Thrifty text) :
    (Strategy.writingOnce.document s.limit s.point).run s.memory =
      (Strategy.remembering.document s.limit s.point).run s.memory := by
  obtain ⟨_, _, _, hrun, htwin, -⟩ := h.run
  exact htwin.trans hrun.symm

/-- **One reading begins nothing again.** -/
theorem next (h : s.Thrifty text) : s.read.2.Thrifty text := by
  obtain ⟨found, memory, fresh, hrun, -, hplaced, hreaches, hgrows, hclosed⟩ := h.run
  have hsettled := h.settled.next
  rw [Session.read_eq hrun] at hsettled ⊢
  have hbegun : memory.begun = fresh ++ s.memory.begun := hgrows.begun
  have hbracket : ∀ o ∈ memory.begun, BracketFrom (.start text) o := by
    rw [hbegun, List.forall_mem_append]
    exact ⟨fun o ho => (hgrows.bracket o ho).mono h.settled.reaches, h.bracket⟩
  rcases h.behind with hbehind | hcomma
  · refine ⟨hsettled, hplaced, ?_, hbracket, ?_⟩
    · rw [hbegun]
      refine List.nodup_append.mpr ⟨hgrows.nodup, h.nodup, fun o ho o' ho' heq => ?_⟩
      exact absurd (hbehind o' ho') (not_lt.mpr (heq ▸ (hgrows.bracket o ho).le))
    · rcases hsettled.behind with hknown | hcomma
      · refine Or.inl ?_
        rw [hbegun, List.forall_mem_append]
        refine ⟨fun o ho => ?_, fun o ho => (hbehind o ho).trans_le hreaches.offset_le⟩
        exact (hclosed o ho).elim (hknown o) And.right
      · exact Or.inr hcomma
  · obtain ⟨retries, hfailed⟩ := run_document_of_comma s.limit hcomma s.memory
    obtain ⟨rfl, rfl⟩ := Prod.mk.inj (hrun.symm.trans hfailed)
    exact ⟨hsettled, hplaced, h.nodup, h.bracket, Or.inr hcomma⟩

end Session.Thrifty

theorem thrifty_after (text : String) (limit : Option Int) (count : Nat) :
    ((Session.start text limit).after count).Thrifty text.toList := by
  induction count with
  | zero =>
    refine ⟨settled_start text limit, fun p found _ hfound => ?_, .nil, nofun, Or.inl nofun⟩
    simp [Session.after, Session.start, Memory.empty] at hfound
  | succ count ih => exact ih.next

/-- Where nothing was begun twice, no more was begun than there are opening brackets. -/
theorem length_le_countP {text : List Char} {begun : List Nat} (h : begun.Nodup)
    (hbracket : ∀ o ∈ begun, BracketFrom (.start text) o) :
    begun.length ≤ text.countP isOpening := by
  have hsubset : begun ⊆ text.findIdxs isOpening := by
    intro o ho
    obtain ⟨q, ⟨w, hw⟩, rfl, c, hc, hopen⟩ := hbracket o ho
    obtain ⟨t, ht⟩ := List.head?_eq_some_iff.mp hc
    have htext : text = w ++ c :: t := ht ▸ hw.rest
    have hoffset : q.offset = w.length := hw.offset.trans (Nat.zero_add _)
    rw [List.mem_findIdxs_iff_exists_getElem_pos, hoffset]
    subst htext
    exact ⟨by simp, by simpa using hopen⟩
  calc begun.length
      ≤ (text.findIdxs isOpening).length := (List.subperm_of_subset h hsubset).length_le
    _ = text.countP isOpening := List.length_findIdxs

/-- **No compound is read twice**, whatever the limit, and however often a session is asked to read
on.  The reading of compounds began at different offsets, so at no more of them than the text has
opening brackets.  An outcome that was kept is the same after every later reading; and no reading
replaces one on the way, for it does the same when it cannot. -/
theorem begun_once (text : String) (limit : Option Int) (count : Nat) :
    let s := (Session.start text limit).after count
    s.memory.begun.Nodup ∧ s.memory.begun.length ≤ text.toList.countP isOpening ∧
      (∀ (later o : Nat) (found : Outcome Node), s.memory.outcomes[o]? = some found →
        ((Session.start text limit).after (count + later)).memory.outcomes[o]? = some found) ∧
      (Strategy.writingOnce.document s.limit s.point).run s.memory =
        (Strategy.remembering.document s.limit s.point).run s.memory := by
  intro s
  have hthrifty : s.Thrifty text.toList := thrifty_after text limit count
  refine ⟨hthrifty.nodup, length_le_countP hthrifty.nodup hthrifty.bracket,
    fun later o found hfound => ?_, hthrifty.run_writingOnce⟩
  induction later with
  | zero => exact hfound
  | succ later ih => exact (thrifty_after text limit (count + later)).kept ih

end Literals.Reader
