/-
# What an account says of a reading

`Accounts` compares a rule of the reader that keeps account with the same rule of the reader that
only remembers, at one point and for one number of open compounds.  They do the same; and of the
account it says that **whatever was opened is closed again**, that what is kept for an offset ends
behind it, and that the error kept or under way is one made for the cause at hand, and not yet
annotated.

It passes from part to whole as rules are made: through sequences, alternatives, compounds that are
looked up first, and compounds that are counted.
-/
import Literals.Proofs.Account
import Literals.Proofs.ReadOnce

namespace Literals.Reader

open Grammar Rule

/-! ## 1. Where rules stop -/

/-- Behind the point. -/
def Beyond {α : Type} (p : Point) (_ : α) (q : Point) : Prop :=
  p.offset < q.offset

theorem Spans.beyond {α : Type} {p q : Point} {c : Char} {w : List Char} (h : Spans p (c :: w) q)
    (x : α) : Beyond p x q := by
  rw [Beyond, h.offset, List.length_cons]
  omega

/-- Where the rule succeeds, it has read something. -/
def Advances {α : Type} (r : Rule Id α) : Prop :=
  ∀ ⦃p q : Point⦄ ⦃x : α⦄, r p = .ok x q → Beyond p x q

theorem beyond_of_item {p q : Point} {n : Node} (h : ∃ w, Item w n ∧ Spans p w q) :
    Beyond p n q := by
  obtain ⟨w, hw, hspan⟩ := h
  obtain ⟨c, t, rfl, -⟩ := hw.exists_head
  exact hspan.beyond n

theorem advances_noneLiteral : Advances noneLiteral := fun _ _ x h =>
  (noneLiteral_eq_ok.mp h).1.beyond x

theorem advances_bool : Advances bool := fun _ _ x h =>
  (bool_eq_ok.mp h).elim (fun h => h.1.beyond x) fun h => h.1.beyond x

theorem advances_string : Advances string := by
  intro p q x h
  obtain ⟨quote, a, ha, h⟩ := bind_eq_ok.mp h
  obtain ⟨text, b, hb, h⟩ := bind_eq_ok.mp h
  obtain ⟨-, rfl⟩ := pure_eq_ok.mp h
  have hstop : Reaches a (stringBody quote a.offset a.rest).stop :=
    reaches_stringBody quote a.offset a.rest
  rw [show stringBody quote a.offset a.rest = .ok text b from hb] at hstop
  exact ((next_eq_ok.mp ha).beyond x).trans_le hstop.offset_le

theorem advances_complex : Advances complex := fun _ _ _ h =>
  beyond_of_item (item_of_complex h)

theorem advances_float : Advances float := by
  intro p q x h
  obtain ⟨y, hy, hsign, hmark, hspan, -, rfl⟩ := float_eq_ok.mp h
  exact beyond_of_item ⟨_, .float hy hsign hmark, hspan⟩

theorem advances_integer : Advances integer := by
  intro p q x h
  obtain ⟨minus, ds, hds, hspan, -, rfl⟩ := integer_eq_ok.mp h
  exact beyond_of_item ⟨_, .integer hds, hspan⟩

theorem advances_imaginary : Advances imaginary := by
  intro p q v h
  obtain ⟨x, hx, hspan, -⟩ := imaginary_eq_ok.mp h
  obtain ⟨c, t, ht, -⟩ := Number.Numeral.exists_head hx
  rw [ht] at hspan
  exact hspan.beyond v

/-! ## 2. Sound snapshots -/

/-- The error, if there is one, was made for the cause of the failure; a success has none. -/
def Outcome.Raises {α : Type} (errors : List Fault) (e : Option Nat) : Outcome α → Prop
  | .ok _ _ => e = none
  | .failed c _ => ∀ i ∈ e, errors[i]? = some (.ofCause c)

/-- The error kept with an outcome was made for the cause of the failure; and with anything else
none is kept. -/
def Matches (errors : List Fault) : Option (Outcome Node) → Option Nat → Prop
  | some (.failed c _), e => ∃ i, e = some i ∧ errors[i]? = some (.ofCause c)
  | _, e => e = none

/-- What is kept under an offset of the text ends there or behind, and behind if it is a success;
and errors are kept for failures, as they were made. -/
structure Snapshot.Sound (text : List Char) (errors : List Fault) (m : Snapshot) : Prop where
  placed : m.memory.Placed text
  beyond : ∀ (p : Point) (x : Node) (q : Point), Reaches (.start text) p →
    m.memory.outcomes[p.offset]? = some (.ok x q) → Beyond p x q
  matched : ∀ o : Nat, Matches errors m.memory.outcomes[o]? m.kept[o]?

/-- Since `opened` were open, at so many as `depth` says, further compounds were opened, each inside
the one before and so behind it, and none before `low`. -/
def Snapshot.Above (text : List Char) (low depth : Nat) (opened : List Nat) (m : Snapshot) : Prop :=
  ∃ inner, m.opened = inner ++ opened ∧ m.depth = depth + inner.length ∧
    inner.Pairwise (· > ·) ∧ ∀ o ∈ inner, low ≤ o ∧ o ≤ text.length

section Snapshots

variable {α : Type} {text : List Char} {errors errors' : List Fault} {m : Snapshot} {e : Option Nat}
  {found : Outcome α} {low low' depth o : Nat} {opened : List Nat}

/-- Errors stay as they are. -/
theorem getElem?_of_prefix (h : errors <+: errors') {i : Nat} {f : Fault}
    (hi : errors[i]? = some f) : errors'[i]? = some f := by
  obtain ⟨made, rfl⟩ := h
  rwa [List.getElem?_append_left (List.getElem?_eq_some_iff.mp hi).1]

theorem Matches.mono {found : Option (Outcome Node)} (h : Matches errors found e)
    (hgrown : errors <+: errors') : Matches errors' found e := by
  match found, h with
  | none, h => exact h
  | some (.ok _ _), h => exact h
  | some (.failed c q), ⟨i, he, hi⟩ => exact ⟨i, he, getElem?_of_prefix hgrown hi⟩

/-- Errors that are made later do not matter. -/
theorem Snapshot.Sound.mono (h : m.Sound text errors) (hgrown : errors <+: errors') :
    m.Sound text errors' :=
  ⟨h.placed, h.beyond, fun o => (h.matched o).mono hgrown⟩

/-- Only what is kept matters. -/
theorem Snapshot.Sound.congr {m' : Snapshot} (h : m.Sound text errors)
    (houtcomes : m'.memory.outcomes = m.memory.outcomes) (hkept : m'.kept = m.kept) :
    m'.Sound text errors := by
  refine ⟨fun p found hp hfound => ?_, fun p x q hp hx => ?_, fun o => ?_⟩
  · exact h.placed p found hp (houtcomes ▸ hfound)
  · exact h.beyond p x q hp (houtcomes ▸ hx)
  · rw [houtcomes, hkept]
    exact h.matched o

theorem Matches.raises {found : Outcome Node} (h : Matches errors (some found) e) :
    found.Raises errors e := by
  match found, h with
  | .ok _ _, h => exact h
  | .failed c q, ⟨i, he, hi⟩ =>
    intro j hj
    obtain rfl : i = j := Option.some.inj (he.symm.trans hj)
    exact hi

/-- An error is kept for a failure only. -/
theorem Matches.failed {found : Option (Outcome Node)} {i : Nat}
    (h : Matches errors found (some i)) :
    ∃ c q, found = some (.failed c q) ∧ errors[i]? = some (.ofCause c) := by
  match found, h with
  | some (.failed c q), ⟨j, hj, hf⟩ =>
    obtain rfl := Option.some.inj hj
    exact ⟨c, q, rfl, hf⟩

theorem Snapshot.Above.mono (h : m.Above text low depth opened) (hlow : low' ≤ low) :
    m.Above text low' depth opened := by
  obtain ⟨inner, hopened, hdepth, hpairwise, hinner⟩ := h
  exact ⟨inner, hopened, hdepth, hpairwise, fun o ho => (hinner o ho).imp_left hlow.trans⟩

/-- What is opened inside a compound is opened behind it. -/
theorem Snapshot.Above.inside (h : m.Above text (o + 1) (depth + 1) (o :: opened))
    (ho : o ≤ text.length) : m.Above text o depth opened := by
  obtain ⟨inner, hopened, hdepth, hpairwise, hinner⟩ := h
  refine ⟨inner ++ [o], by simp [hopened], by simp [hdepth]; omega, ?_, ?_⟩
  · refine List.pairwise_append.mpr ⟨hpairwise, List.pairwise_singleton _ _, fun i hi j hj => ?_⟩
    rw [List.mem_singleton.mp hj]
    exact (hinner i hi).1
  · simp only [List.forall_mem_append, List.forall_mem_singleton]
    exact ⟨fun i hi => (hinner i hi).imp_left (Nat.le_succ o).trans, le_rfl, ho⟩

/-- What has been opened and not closed is open. -/
theorem Snapshot.Above.of_eq (hdepth : m.depth = depth) (hopened : m.opened = opened) :
    m.Above text low depth opened :=
  ⟨[], hopened, hdepth, .nil, nofun⟩

end Snapshots

/-! ## 3. Steps of an account -/

/-- A rule may start: so many compounds are open, and no error is under way. -/
structure Account.Ready (text : List Char) (depth : Nat) (w : Account) : Prop where
  sound : w.toSnapshot.Sound text w.errors
  depth : w.depth = depth
  raised : w.raised = none

/-- From the one account to the other, everything that was opened was closed again; errors were
made and none was changed; and at every moment what was kept was sound. -/
structure Account.Leads (text : List Char) (low : Nat) (w w' : Account) : Prop where
  sound : w'.toSnapshot.Sound text w'.errors
  depth : w'.depth = w.depth
  opened : w'.opened = w.opened
  errors : w.errors <+: w'.errors
  past : ∃ new, w'.past = new ++ w.past ∧
    ∀ m ∈ new, m.Sound text w'.errors ∧ m.Above text low w.depth w.opened

namespace Account

variable {α : Type} {text : List Char} {low low' depth o : Nat} {w w' w'' : Account}
  {found : Outcome Node}

namespace Leads

/-- Nothing was opened. -/
theorem of_past (hsound : w'.toSnapshot.Sound text w'.errors) (hdepth : w'.depth = w.depth)
    (hopened : w'.opened = w.opened) (herrors : w.errors <+: w'.errors)
    (hpast : w'.past = w.past) : w.Leads text low w' :=
  ⟨hsound, hdepth, hopened, herrors, [], hpast, nofun⟩

theorem refl (h : w.toSnapshot.Sound text w.errors) : w.Leads text low w :=
  .of_past h rfl rfl (List.prefix_refl _) rfl

theorem trans (h : w.Leads text low w') (h' : w'.Leads text low w'') : w.Leads text low w'' := by
  obtain ⟨new, hpast, hnew⟩ := h.past
  obtain ⟨new', hpast', hnew'⟩ := h'.past
  refine ⟨h'.sound, h'.depth.trans h.depth, h'.opened.trans h.opened, h.errors.trans h'.errors,
    new' ++ new, by rw [hpast', hpast, List.append_assoc], ?_⟩
  rw [List.forall_mem_append]
  refine ⟨fun m hm => ?_, fun m hm => (hnew m hm).imp_left (·.mono h'.errors)⟩
  have := hnew' m hm
  rwa [h.depth, h.opened] at this

theorem mono (h : w.Leads text low w') (hlow : low' ≤ low) : w.Leads text low' w' := by
  obtain ⟨new, hpast, hnew⟩ := h.past
  exact ⟨h.sound, h.depth, h.opened, h.errors, new, hpast,
    fun m hm => (hnew m hm).imp_right (·.mono hlow)⟩

/-- What is said of every moment before holds of every moment after as well. -/
theorem forall_snapshots {P : Snapshot → Prop} (h : w.Leads text low w')
    (hw : ∀ m ∈ w.past, P m)
    (hnew : ∀ m : Snapshot, m.Sound text w'.errors → m.Above text low w.depth w.opened → P m) :
    ∀ m ∈ w'.snapshots, P m := by
  obtain ⟨new, hpast, hsound⟩ := h.past
  rw [snapshots, hpast, List.forall_mem_cons, List.forall_mem_append]
  exact ⟨hnew _ h.sound (.of_eq h.depth h.opened),
    fun m hm => hnew m (hsound m hm).1 (hsound m hm).2, hw⟩

end Leads

/-- A failure has an error, which is made for it unless there is one. -/
theorem raising_spec (low : Nat) (hsound : w.toSnapshot.Sound text w.errors)
    (hraised : found.Raises w.errors w.raised) :
    w.Leads text low (w.raising found) ∧ (w.raising found).memory = w.memory ∧
      Matches (w.raising found).errors (some found) (w.raising found).raised := by
  cases found with
  | ok x q => exact ⟨.refl hsound, rfl, hraised⟩
  | failed c q =>
    rw [raising]
    cases he : w.raised with
    | some i => exact ⟨.refl hsound, rfl, i, he, hraised i he⟩
    | none =>
      have hgrown : w.errors <+: w.errors ++ [.ofCause c] := List.prefix_append _ _
      refine ⟨.of_past (hsound.mono hgrown) rfl rfl hgrown rfl, rfl, w.errors.length, rfl, ?_⟩
      exact List.getElem?_concat_length

/-- What is kept with the error that belongs to it is sound. -/
theorem keeping_spec (low : Nat) {p : Point} (hsound : w.toSnapshot.Sound text w.errors)
    (hp : Reaches (.start text) p) (hstop : Reaches p found.stop)
    (hbeyond : ∀ x q, found = .ok x q → Beyond p x q)
    (hmatches : Matches w.errors (some found) w.raised) :
    w.Leads text low (w.keeping p.offset found) := by
  rw [keeping, Memory.keeping]
  split
  next hlasting =>
    have hplaced : (w.memory.keeping p.offset found).Placed text := hsound.placed.keeping hp hstop
    rw [Memory.keeping, if_pos hlasting] at hplaced
    refine .of_past ⟨hplaced, fun p' x q hp' hfound => ?_, fun o => ?_⟩ rfl rfl
      (List.prefix_refl _) rfl
    · simp only [Std.HashMap.getElem?_insert, beq_iff_eq] at hfound
      split at hfound
      next heq =>
        obtain rfl := hp.unique hp' heq
        exact hbeyond x q (Option.some.inj hfound)
      next => exact hsound.beyond p' x q hp' hfound
    · simp only [Std.HashMap.getElem?_insert, Std.HashMap.getElem?_alter, beq_iff_eq]
      split
      next => exact hmatches
      next => exact hsound.matched o
  next => exact .refl hsound

/-- **A compound that is opened is closed**, and everything inside it is opened behind it. -/
theorem Leads.closing (hsound : w.toSnapshot.Sound text w.errors)
    (h : (w.opening o).Leads text (o + 1) w') (ho : o ≤ text.length) :
    w.Leads text o w'.closing := by
  obtain ⟨new, hpast, hnew⟩ := h.past
  have hopening : (w.opening o).toSnapshot.Sound text w.errors := hsound.congr rfl rfl
  have habove : (w.opening o).toSnapshot.Above text (o + 1) (w.depth + 1) (o :: w.opened) :=
    .of_eq rfl rfl
  have hopened : w'.toSnapshot.Above text (o + 1) (w.depth + 1) (o :: w.opened) :=
    .of_eq h.depth h.opened
  refine ⟨h.sound.congr rfl rfl, ?_, ?_, h.errors,
    w'.toSnapshot :: (new ++ [(w.opening o).toSnapshot]), ?_, ?_⟩
  · change w'.depth - 1 = w.depth
    rw [h.depth]
    rfl
  · change w'.opened.tail = w.opened
    rw [h.opened]
    rfl
  · change w'.toSnapshot :: w'.past = _
    rw [hpast]
    simp [opening]
  · simp only [List.forall_mem_cons, List.forall_mem_append]
    refine ⟨⟨h.sound, hopened.inside ho⟩, fun m hm => ?_, ?_⟩
    · exact (hnew m hm).imp_right (·.inside ho)
    · exact ⟨⟨hopening.mono h.errors, habove.inside ho⟩, nofun⟩

end Account

/-! ## 4. Rules with and without an account -/

/-- From every account with `depth` open compounds, the rule `r` does what `r₀` does from the memory
alone; it does not stop before the point; and where it succeeds, what it finds is as required.
Whatever it opened, from `low` on, it has closed. -/
def Accounts {α : Type} (text : List Char) (depth low : Nat) (r : Rule (StateM Account) α)
    (r₀ : Rule (StateM Memory) α) (Q : α → Point → Prop) (p : Point) : Prop :=
  ∀ w : Account, w.Ready text depth → ∃ found w',
    ((r p).run w).run = (found, w') ∧ ((r₀ p).run w.memory).run = (found, w'.memory) ∧
      Reaches p found.stop ∧ (∀ a q, found = .ok a q → Q a q) ∧
      w.Leads text low w' ∧ found.Raises w'.errors w'.raised

section Accounts

variable {α β : Type} {text : List Char} {depth low low' : Nat} {p q : Point}
  {r t : Rule (StateM Account) α} {r₀ t₀ : Rule (StateM Memory) α} {r' : Rule Id α}
  {k : α → Rule (StateM Account) β} {k₀ : α → Rule (StateM Memory) β}
  {Q R : α → Point → Prop} {S : β → Point → Prop}

theorem Accounts.weaken (h : Accounts text depth low r r₀ R p)
    (hQ : ∀ a q, Reaches p q → R a q → Q a q) : Accounts text depth low r r₀ Q p := by
  intro w hw
  obtain ⟨found, w', hrun, hrun₀, hreaches, hR, hrest⟩ := h w hw
  refine ⟨found, w', hrun, hrun₀, hreaches, ?_, hrest⟩
  rintro a q rfl
  exact hQ a q hreaches (hR a q rfl)

/-- What is found from a point further on is found beyond the first one. -/
theorem Accounts.beyond (h : Accounts text depth low r r₀ R q) (hq : p.offset < q.offset) :
    Accounts text depth low r r₀ (Beyond p) q :=
  h.weaken fun _ _ hreaches _ => hq.trans_le hreaches.offset_le

theorem Accounts.mono (h : Accounts text depth low r r₀ Q p) (hlow : low' ≤ low) :
    Accounts text depth low' r r₀ Q p := by
  intro w hw
  obtain ⟨found, w', hrun, hrun₀, hreaches, hQ, hleads, hraises⟩ := h w hw
  exact ⟨found, w', hrun, hrun₀, hreaches, hQ, hleads.mono hlow, hraises⟩

/-- Only what the rules do at the point matters, which may be what others do further on. -/
theorem Accounts.congr (h : Accounts text depth low t t₀ Q q) (hr : r p = t q) (hr₀ : r₀ p = t₀ q)
    (hq : Reaches p q) : Accounts text depth low r r₀ Q p := by
  intro w hw
  rw [hr, hr₀]
  obtain ⟨found, w', hrun, hrun₀, hreaches, hrest⟩ := h w hw
  exact ⟨found, w', hrun, hrun₀, hq.trans hreaches, hrest⟩

/-- A rule without effects does the same in any reader. -/
theorem accounts_of_quiet (h : Quiet 0 r r' p) (h₀ : Quiet 0 r₀ r' p) :
    Accounts text depth low r r₀ (fun a q => r' p = .ok a q) p := by
  have hr : r p = pure (r' p) := h.moved.trans (congrArg pure (Outcome.moved_zero _))
  have hr₀ : r₀ p = pure (r' p) := h₀.moved.trans (congrArg pure (Outcome.moved_zero _))
  refine fun w hw => ⟨r' p, w, by rw [hr]; rfl, by rw [hr₀]; rfl, h.reaches, fun _ _ => id,
    .refl hw.sound, ?_⟩
  rw [hw.raised]
  cases r' p with
  | ok a q => rfl
  | failed c q => exact nofun

/-- **A sequence does the same** when its parts do. -/
theorem Accounts.bind (h : Accounts text depth low r r₀ R p)
    (hk : ∀ a q, Reaches p q → R a q → Accounts text depth low (k a) (k₀ a) S q) :
    Accounts text depth low (r >>= k) (r₀ >>= k₀) S p := by
  intro w hw
  obtain ⟨found, w₁, hrun, hrun₀, hreaches, hR, hleads, hraises⟩ := h w hw
  cases found with
  | ok a q =>
    have hw₁ : w₁.Ready text depth := ⟨hleads.sound, hleads.depth.trans hw.depth, hraises⟩
    obtain ⟨found', w₂, hrun', hrun₀', hreaches', hS, hleads', hraises'⟩ :=
      hk a q hreaches (hR a q rfl) w₁ hw₁
    exact ⟨found', w₂, (run_bind_of_ok hrun).trans hrun', (run_bind_of_ok hrun₀).trans hrun₀',
      hreaches.trans hreaches', hS, hleads.trans hleads', hraises'⟩
  | failed c q =>
    exact ⟨.failed c q, w₁, run_bind_of_failed hrun, run_bind_of_failed hrun₀, hreaches, nofun,
      hleads, hraises⟩

/-- A sequence of three rules is one, however it is put together. -/
theorem bind_assoc_apply {m : Type → Type} [Monad m] [LawfulMonad m] {γ : Type} (r : Rule m α)
    (k : α → Rule m β) (l : β → Rule m γ) (p : Point) :
    ((r >>= k) >>= l) p = (r >>= fun a => k a >>= l) p := by
  change ((r p >>= _) >>= _) = (r p >>= _)
  rw [bind_assoc]
  refine congrArg (r p >>= ·) (funext fun found => ?_)
  cases found with
  | ok a q => rfl
  | failed c q => exact pure_bind _ _

theorem accounts_pure {a : α} (h : Q a p) : Accounts text depth low (pure a) (pure a) Q p :=
  (accounts_of_quiet (quiet_pure a) (quiet_pure a)).weaken fun b q _ hb => by
    obtain ⟨rfl, rfl⟩ := pure_eq_ok.mp hb
    exact h

theorem accounts_fail (e : Cause) : Accounts text depth low (fail e) (fail e) Q p :=
  (accounts_of_quiet (quiet_fail e) (quiet_fail e)).weaken fun _ _ _ h => absurd h fail_ne_ok

theorem Accounts.ite {c : Prop} [Decidable c] (h : c → Accounts text depth low r r₀ Q p)
    (h' : ¬ c → Accounts text depth low t t₀ Q p) :
    Accounts text depth low (if c then r else t) (if c then r₀ else t₀) Q p := by
  by_cases hc : c
  · rw [if_pos hc, if_pos hc]
    exact h hc
  · rw [if_neg hc, if_neg hc]
    exact h' hc

/-- The two readers know the same point. -/
theorem accounts_here {k : Point → Rule (StateM Account) β} {k₀ : Point → Rule (StateM Memory) β}
    (h : Accounts text depth low (k p) (k₀ p) S p) :
    Accounts text depth low (here >>= k) (here >>= k₀) S p :=
  h.congr (bind_of_pure_ok rfl) (bind_of_pure_ok rfl) (.refl p)

theorem accounts_ahead : Accounts text depth low ahead ahead
    (fun c q => c = p.rest.head? ∧ q = p) p :=
  (accounts_of_quiet quiet_ahead quiet_ahead).weaken fun _ _ _ h => by
    obtain ⟨rfl, rfl⟩ := Outcome.ok.inj h
    exact ⟨rfl, rfl⟩

theorem accounts_peek : Accounts text depth low peek peek
    (fun c q => p.rest.head? = some c ∧ q = p) p :=
  (accounts_of_quiet quiet_peek quiet_peek).weaken fun _ _ _ h =>
    (peek_eq_ok.mp h).imp_right Eq.symm

theorem accounts_next : Accounts text depth low next next (Beyond p) p :=
  (accounts_of_quiet quiet_next quiet_next).weaken fun c _ _ h => (next_eq_ok.mp h).beyond c

theorem accounts_blanks : Accounts text depth low blanks blanks (fun _ _ => True) p :=
  (accounts_of_quiet quiet_blanks quiet_blanks).weaken fun _ _ _ _ => trivial

/-- A rule that reads something where it succeeds. -/
theorem accounts_lift (h : Quiet 0 r' r' p) (hr' : Advances r') :
    Accounts text depth low (Rule.lift r') (Rule.lift r') (Beyond p) p :=
  (accounts_of_quiet h.lift h.lift).weaken fun _ _ _ ha => hr' ha

/-- **Two alternatives from one point**: the error of the first is not under way in the second. -/
theorem Accounts.attempt {trial : Trial} {first second : Rule (StateM Account) Node}
    {first₀ second₀ : Rule (StateM Memory) Node} {Q : Node → Point → Prop}
    (h : Accounts text depth low first first₀ Q p)
    (h' : Accounts text depth low second second₀ Q p) :
    Accounts text depth low (attempt Account.note trial first second)
      (attempt Strategy.remembering.note trial first₀ second₀) Q p := by
  intro w hw
  obtain ⟨found, w₁, hrun, hrun₀, hreaches, hQ, hleads, hraises⟩ := h w hw
  cases found with
  | ok x q =>
    exact ⟨_, w₁, run_attempt_of_ok hrun, run_attempt_of_ok hrun₀, hreaches, hQ, hleads, hraises⟩
  | failed c q =>
    cases hc : c.isFinal with
    | true =>
      exact ⟨_, w₁, run_attempt_of_final hrun hc, run_attempt_of_final hrun₀ hc, hreaches, hQ,
        hleads, hraises⟩
    | false =>
      -- The error goes no further than the retry, so none is under way for the second rule.
      let retry : Retry := ⟨trial, q.offset, c, p.offset⟩
      have hsound : (w₁.retrying retry).toSnapshot.Sound text w₁.errors :=
        hleads.sound.congr rfl rfl
      have hnoted : w.Leads text low (w₁.retrying retry) :=
        hleads.trans (.of_past hsound rfl rfl (List.prefix_refl _) rfl)
      obtain ⟨found', w₂, hrun', hrun₀', hreaches', hQ', hleads', hraises'⟩ :=
        h' (w₁.retrying retry) ⟨hsound, hleads.depth.trans hw.depth, rfl⟩
      exact ⟨found', w₂, (run_attempt_of_failed hrun hc).trans hrun',
        (run_attempt_of_failed hrun₀ hc).trans hrun₀', hreaches', hQ', hnoted.trans hleads',
        hraises'⟩

/-- **A compound that is looked up first**: with an outcome that is known comes the error that was
kept with it, and one that is kept gets the error that is under way. -/
theorem Accounts.recalled {r : Rule (StateM Account) Node} {r₀ : Rule (StateM Memory) Node}
    (h : Accounts text depth low r r₀ (Beyond p) p) (hp : Reaches (.start text) p) :
    Accounts text depth low (Account.keeper.recalled r) (Reader.recalled r₀) (Beyond p) p := by
  intro w hw
  cases hknown : w.memory.outcomes[p.offset]? with
  | some found =>
    have hmatches : Matches w.errors (some found) w.kept[p.offset]? :=
      hknown ▸ hw.sound.matched p.offset
    have hsound : (w.replaying p.offset).toSnapshot.Sound text w.errors :=
      hw.sound.congr rfl rfl
    refine ⟨found, w.replaying p.offset, Keeper.run_recalled_of_known _ hknown,
      Keeper.run_recalled_of_known _ hknown, hw.sound.placed p found hp hknown, ?_,
      .of_past hsound rfl rfl (List.prefix_refl _) rfl, hmatches.raises⟩
    rintro x q rfl
    exact hw.sound.beyond p x q hp hknown
  | none =>
    have hsound : (w.beginning p.offset).toSnapshot.Sound text w.errors :=
      hw.sound.congr rfl rfl
    obtain ⟨found, w₁, hrun, hrun₀, hreaches, hQ, hleads, hraises⟩ :=
      h (w.beginning p.offset) ⟨hsound, hw.depth, hw.raised⟩
    obtain ⟨hraised, hmemory, hmatches⟩ := Account.raising_spec low hleads.sound hraises
    -- By now there is an error for the failure: one that came from inside, or a new one.
    have hkept := Account.keeping_spec low hraised.sound hp hreaches hQ hmatches
    have hbegun : w.Leads text low (w.beginning p.offset) :=
      .of_past hsound rfl rfl (List.prefix_refl _) rfl
    refine ⟨found, _, Keeper.run_recalled_of_unknown _ hknown hrun, ?_, hreaches, hQ,
      hbegun.trans (hleads.trans (hraised.trans hkept)), hmatches.raises⟩
    change _ = (found, (w₁.raising found).memory.keeping p.offset found)
    rw [hmemory]
    exact Keeper.run_recalled_of_unknown _ hknown hrun₀

/-- **A compound is closed** however it ends. -/
theorem Accounts.compound (limit : Option Int) {r : Rule (StateM Account) Node}
    {r₀ : Rule (StateM Memory) Node}
    (h : Accounts text (depth + 1) (p.offset + 1) r r₀ (Beyond p) p)
    (hp : Reaches (.start text) p) :
    Accounts text depth p.offset (Account.compound limit r)
      (enter limit (depth + 1) >>= fun _ => Reader.recalled r₀) (Beyond p) p := by
  intro w hw
  have hsound : (w.opening p.offset).toSnapshot.Sound text w.errors :=
    hw.sound.congr rfl rfl
  -- From here on one compound more is open, and everything opened is opened behind its bracket.
  have hinside : Accounts text (depth + 1) (p.offset + 1)
      (enter limit (depth + 1) >>= fun _ => Account.keeper.recalled r)
      (enter limit (depth + 1) >>= fun _ => Reader.recalled r₀) (Beyond p) p := by
    refine (accounts_of_quiet (quiet_enter _ _) (quiet_enter _ _)).bind fun _ q _ hq => ?_
    obtain rfl := (enter_eq_ok hq).1
    exact h.recalled hp
  obtain ⟨found, w', hrun, hrun₀, hreaches, hQ, hleads, hraises⟩ :=
    hinside (w.opening p.offset) ⟨hsound, congrArg (· + 1) hw.depth, hw.raised⟩
  have hdepth : (w.opening p.offset).depth = depth + 1 := congrArg (· + 1) hw.depth
  have ho : p.offset ≤ text.length := Nat.le.intro hp.length
  refine ⟨found, w'.closing, ?_, hrun₀, hreaches, hQ, hleads.closing hw.sound ho, hraises⟩
  simp [Account.compound, hdepth, hrun]

end Accounts

end Literals.Reader
