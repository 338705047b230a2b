/-
# Errors are annotated once

An error travels through the rules without a position, may be kept on its way, and is raised again
wherever the compound it is kept for is met once more, in another alternative or in a later
reading.  **Only the copy that the caller gets has a position**, and that is the offset at which
the reading stopped (`annotated_once`); what is kept stays as it was made, for good.

That the message names the position once is not only that it was appended once: no reason has
anything like it inside (`eq_reason_of_split`).
-/
import Literals.Proofs.AccountedRules
import Literals.Proofs.Rendering

namespace Literals

/-! ## 1. Reasons and positions -/

/-- How the position in a message begins. -/
def positionMark : List Char :=
  [' ', '(', 'a', 't', ' ', 'p', 'o', 's', 'i', 't', 'i', 'o', 'n', ' ']

theorem Fault.toList_annotate (f : Fault) (position : Int) : (f.annotate position).message.toList =
    f.message.toList ++ positionMark ++ ((toString position).toList ++ [')']) := by
  change (f.message ++ " (at position " ++ toString position ++ ")").toList = _
  simp only [String.toList_append, List.append_assoc]
  rfl

/-- What comes behind a character somewhere comes behind the first one. -/
theorem mem_dropWhile_append {c d : Char} {u t : List Char} (h : d ∈ t) :
    d ∈ (u ++ c :: t).dropWhile (· != c) := by
  induction u with
  | nil => simpa [List.dropWhile_cons] using Or.inr h
  | cons e u ih =>
    rw [List.cons_append, List.dropWhile_cons]
    split
    next => exact ih
    next => simp [h]

theorem notMem_toString {c : Char} (hdigit : c.isDigit = false) (hminus : c ≠ '-') (n : Int) :
    c ∉ (toString n).toList := fun h => by
  rcases mem_toString h with hd | rfl
  · rw [hdigit] at hd
    cases hd
  · exact hminus rfl

/-- A text without a bracket is passed over. -/
theorem dropWhile_noBracket_append {s : String} (t : List Char)
    (h : s.toList.all (· != '(') = true) :
    (s.toList ++ t).dropWhile (· != '(') = t.dropWhile (· != '(') :=
  List.dropWhile_append_of_pos (List.all_eq_true.mp h)

/-- In a reason that quotes a character, nothing but the quote is behind the first bracket. -/
theorem notMem_dropWhile_quoted (s : String) (d : Char) (h : s.toList.all (· != '(') = true) :
    'a' ∉ (s ++ String.singleton d ++ "'").toList.dropWhile (· != '(') := by
  simp only [String.toList_append, List.append_assoc]
  rw [dropWhile_noBracket_append _ h]
  by_cases hd : d = '('
  · subst hd
    decide
  · simp [hd]

theorem nestingDepth_reason (n : Int) : (Cause.nestingDepth n).reason.toList =
    "maximum nesting depth exceeded ".toList ++ '(' :: ((toString n).toList ++ [')']) := by
  have hstart : "maximum nesting depth exceeded (".toList =
      "maximum nesting depth exceeded ".toList ++ ['('] := by simp
  unfold Cause.reason
  simp only [String.toList_append, List.append_assoc, hstart]
  rfl

/-- The one reason with a bracket of its own has a number behind it. -/
theorem Cause.notMem_dropWhile_reason (c : Cause) :
    'a' ∉ c.reason.toList.dropWhile (· != '(') := by
  cases c with
  | nestingDepth n =>
    rw [nestingDepth_reason, dropWhile_noBracket_append _ (by decide),
      List.dropWhile_cons_of_neg (by decide)]
    intro h
    simp only [List.mem_cons, List.mem_append, List.not_mem_nil, or_false] at h
    rcases h with h | h | h
    · exact absurd h (by decide)
    · exact notMem_toString (by decide) (by decide) n h
    · exact absurd h (by decide)
  | missingClose d => exact notMem_dropWhile_quoted "missing '" d (by decide)
  | expectedClose d => exact notMem_dropWhile_quoted "expected '" d (by decide)
  | _ => decide

/-- **A position stands in a message once**: behind the reason, and nowhere in it. -/
theorem Cause.eq_reason_of_split {c : Cause} {n : Int} {u v : List Char}
    (h : ((Fault.ofCause c).annotate n).message.toList = u ++ positionMark ++ v) :
    u = c.reason.toList := by
  rw [Fault.toList_annotate, List.append_assoc, List.append_assoc] at h
  change c.reason.toList ++ _ = _ at h
  rcases List.append_eq_append_iff.mp h with ⟨w, rfl, hw⟩ | ⟨w, hreason, hw⟩
  · -- The second bracket would stand behind the first, where there is none.
    rcases w with - | ⟨d, - | ⟨e, w⟩⟩
    · simp
    · simp [positionMark] at hw
    · simp only [positionMark, List.cons_append, List.nil_append, List.cons.injEq] at hw
      obtain ⟨-, -, hw⟩ := hw
      have hmem : '(' ∈ w ++ (positionMark ++ v) := by simp [positionMark]
      simp only [positionMark, List.cons_append, List.nil_append] at hmem
      rw [← hw] at hmem
      have hdigits : '(' ∉ (toString n).toList := notMem_toString (by decide) (by decide) n
      simp [-Int.toString_eq_repr, hdigits] at hmem
  · -- A bracket with a letter behind it would stand in the reason.
    rcases w with - | ⟨d, - | ⟨e, - | ⟨f, w⟩⟩⟩
    · simpa using hreason.symm
    · simp [positionMark] at hw
    · simp [positionMark] at hw
    · simp only [positionMark, List.cons_append, List.nil_append, List.cons.injEq] at hw
      obtain ⟨rfl, rfl, rfl, -⟩ := hw
      refine absurd ?_ c.notMem_dropWhile_reason
      rw [hreason, show u ++ ' ' :: '(' :: 'a' :: w = (u ++ [' ']) ++ '(' :: 'a' :: w by simp]
      exact mem_dropWhile_append List.mem_cons_self

/-- The error as it was made for the cause: its message is its reason, and it has no position. -/
structure Fault.Bare (f : Fault) (c : Cause) : Prop where
  kind : f.kind = c.kind
  reason : f.reason = c.reason
  message : f.message = f.reason
  position : f.position = none

/-- The error has the position of the cause of a failure: its message is the reason with that
position behind it, and names no position but there. -/
structure Fault.Annotated (f : Fault) (c : Cause) (position : Int) : Prop where
  kind : f.kind = c.kind
  reason : f.reason = c.reason
  message : f.message = f.reason ++ " (at position " ++ toString position ++ ")"
  once : ∀ u v, f.message.toList = u ++ positionMark ++ v → u = f.reason.toList
  position : f.position = some position

theorem Cause.bare (c : Cause) : (Fault.ofCause c).Bare c :=
  ⟨rfl, rfl, rfl, rfl⟩

theorem Cause.annotated (c : Cause) (position : Int) :
    ((Fault.ofCause c).annotate position).Annotated c position :=
  ⟨rfl, rfl, rfl, fun _ _ h => eq_reason_of_split h, rfl⟩

namespace Reader

/-! ## 2. Sessions -/

/-- What a failed reading gives is the failure of the plain rules on the text that was left, with
the offset of the point where it stopped. -/
theorem Session.Settled.error {text : List Char} {t : Session} {f : Fault} (h : t.Settled text)
    (hf : t.read.1 = .error f) : ∃ c q,
      Strategy.plain.document t.limit (.start t.point.rest) = .failed c q ∧
        t.read.2.point.offset = q.offset + t.point.offset ∧
        f = (Fault.ofCause c).annotate t.read.2.point.offset := by
  obtain ⟨found, memory, hfound, hrun, -⟩ := h.run
  rw [Session.read_eq hrun] at hf ⊢
  cases found with
  | ok root q => cases hf
  | failed c q => exact ⟨c, q, hfound, rfl, (Except.error.inj hf).symm⟩

/-- For each failure that is kept at some moment there is an error object, and for nothing else;
and as the objects are now, it is as it was made. -/
structure Snapshot.KeepsBare (errors : List Fault) (m : Snapshot) : Prop where
  failed : ∀ (o : Nat) (c : Cause) (q : Point), m.memory.outcomes[o]? = some (.failed c q) →
    ∃ e f, m.kept[o]? = some e ∧ errors[e]? = some f ∧ f.Bare c
  only : ∀ o e : Nat, m.kept[o]? = some e → ∃ c q, m.memory.outcomes[o]? = some (.failed c q)

theorem Snapshot.Sound.keepsBare {text : List Char} {errors : List Fault} {m : Snapshot}
    (h : m.Sound text errors) : m.KeepsBare errors where
  failed o c q hfailed := by
    have hmatches := h.matched o
    rw [hfailed] at hmatches
    obtain ⟨e, he, hf⟩ := hmatches
    exact ⟨e, _, he, hf, c.bare⟩
  only o e he := by
    have hmatches := h.matched o
    rw [he] at hmatches
    obtain ⟨c, q, hfailed, -⟩ := hmatches.failed
    exact ⟨c, q, hfailed⟩

/-- The object that the caller gets when a reading of the session `t` fails for a cause: the rules
alone fail for it on the text that was left, and a session without an account gives the same error.
It has the offset of the cursor, which does not lie behind the text; and it was never kept. -/
structure Delivers (text : List Char) (limit : Option Int) (t : Session)
    (after : AccountedSession) (e : Nat) (c : Cause) (f : Fault) : Prop where
  object : after.account.errors[e]? = some f
  plain : ∃ q, Strategy.plain.document limit (.start t.point.rest) = .failed c q
  result : t.read.1 = .error f
  annotated : f.Annotated c after.point.offset
  inside : after.point.offset ≤ text.length
  unkept : ∀ m ∈ after.account.snapshots, ∀ o : Nat, m.kept[o]? ≠ some e

/-- **Errors are annotated once, and only for the caller.**  After any number of readings, a
session with an account stands where the one without stands.  The errors that are kept at any
moment so far stay as they were made (`Snapshot.KeepsBare`).  If the next reading fails, the caller
gets another object (`Delivers`). -/
theorem annotated_once (text : String) (limit : Option Int) (spare : Rule (StateM Account) Node)
    (count : Nat) :
    let t := (Session.start text limit).after count
    let s := (AccountedSession.start text limit).after spare count
    s.Beside t ∧ (∀ m ∈ s.account.snapshots, m.KeepsBare s.account.errors) ∧
      match (s.read spare).1 with
      | .ok x => t.read.1 = .ok x
      | .error e => ∃ c f, Delivers text.toList limit t (s.read spare).2 e c f := by
  intro t s
  have hfollows : s.Follows text.toList t := AccountedSession.follows_after text limit spare count
  have hsettled : t.Settled text.toList := settled_after text limit count
  obtain ⟨hnext, hanswers⟩ := hfollows.next spare
  refine ⟨hfollows.toBeside, fun m hm => (hfollows.snapshots m hm).1.keepsBare, ?_⟩
  cases hread : (s.read spare).1 with
  | ok x =>
    rw [hread] at hanswers
    exact hanswers
  | error e =>
    rw [hread] at hanswers
    obtain ⟨f, hf, herror⟩ := hanswers
    obtain ⟨c, q, hplain, -, hannotated⟩ := hsettled.error herror
    rw [limit_after] at hplain
    have hoffset : (s.read spare).2.point.offset = t.read.2.point.offset :=
      congrArg Point.offset hnext.point
    refine ⟨c, f, hf, ⟨q, hplain⟩, herror, ?_, hoffset ▸ hsettled.next.rest.1, fun m hm o he => ?_⟩
    · rw [hannotated, hoffset]
      exact c.annotated _
    · -- An error that is kept has no position.
      have hmatches := (hnext.snapshots m hm).1.matched o
      rw [he] at hmatches
      obtain ⟨d, q', -, hd⟩ := hmatches.failed
      obtain rfl : f = Fault.ofCause d := Option.some.inj (hf.symm.trans hd)
      exact nomatch congrArg Fault.position hannotated

end Reader

end Literals
