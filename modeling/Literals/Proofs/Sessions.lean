/-
# Reading on in a session

A session may be asked for one expression after another.  Each reading goes on where the last one
stopped, whether that one succeeded or not, with everything remembered.  **What is remembered never
shows**: the next reading finds what a first one finds in the text that is left.

The invariant is `Settled`.  Whatever a reading keeps it has passed (`Passes`), so the memory is
about the text before the point reached.  The exception is a reading that stops at a comma; there
no later one gets any further, and none looks into the memory.
-/
import Literals.Proofs.Remembering

namespace Literals

/-- The error at a position so much further on, which its message names. -/
def Fault.moved (k : Nat) (f : Fault) : Fault :=
  match f.position with
  | none => f
  | some i => (Fault.make f.kind f.reason none).annotate (i + k)

theorem Fault.annotate_moved (k i : Nat) (c : Cause) :
    ((Fault.ofCause c).annotate i).moved k = (Fault.ofCause c).annotate ↑(i + k) := by
  rw [Nat.cast_add]
  rfl

end Literals

namespace Literals.Reader

open Grammar Rule

/-! ## 1. Settled sessions -/

/-- The session after so many readings. -/
def Session.after (s : Session) : Nat → Session
  | 0 => s
  | count + 1 => (s.after count).read.2

theorem Outcome.result_moved (k : Nat) (found : Outcome Node) :
    (found.moved k).result = found.result.mapError (Fault.moved k) := by
  cases found with
  | ok root q => rfl
  | failed c q => exact congrArg Except.error (Fault.annotate_moved k q.offset c).symm

/-- What is remembered lies before the point reached, or a comma comes next, where no reading gets
any further. -/
structure Session.Settled (text : List Char) (s : Session) : Prop where
  reaches : Reaches (.start text) s.point
  behind : (∀ o ∈ s.memory.outcomes, o < s.point.offset) ∨ s.point.rest.head? = some ','

theorem settled_start (text : String) (limit : Option Int) :
    (Session.start text limit).Settled text.toList :=
  ⟨.refl _, Or.inl fun o ho => by simp [Session.start, Memory.empty] at ho⟩

/-- Where a comma comes next, a reading fails at once, and only notes what it tried. -/
theorem run_document_of_comma (limit : Option Int) {p : Point} (hp : p.rest.head? = some ',')
    (s : Memory) : ∃ retries, ((Strategy.remembering.document limit p).run s).run =
      (.failed .noInteger p, { s with retries := retries }) := by
  obtain ⟨o, t⟩ := p
  obtain ⟨t, rfl⟩ := List.head?_eq_some_iff.mp hp
  exact ⟨_, rfl⟩

theorem document_of_comma (limit : Option Int) {p : Point} (hp : p.rest.head? = some ',') :
    Strategy.plain.document limit p = .failed .noInteger p := by
  obtain ⟨o, t⟩ := p
  obtain ⟨t, rfl⟩ := List.head?_eq_some_iff.mp hp
  rfl

variable {text : List Char} {s : Session}

/-! ## 2. One reading after another -/

/-- **A reading from a settled session finds what the plain rules find in the text that is left**,
and it leaves a settled memory. -/
theorem Session.Settled.run (h : s.Settled text) :
    ∃ found memory, Strategy.plain.document s.limit (.start s.point.rest) = found ∧
      ((Strategy.remembering.document s.limit s.point).run s.memory).run =
        (found.moved s.point.offset, memory) ∧
      Reaches (.start s.point.rest) found.stop ∧
      ((∀ o ∈ memory.outcomes, o < found.stop.offset + s.point.offset) ∨
        found.stop.rest.head? = some ',') := by
  have hpoint : s.point = (Point.start s.point.rest).moved s.point.offset := by
    simp [Point.moved, Point.start]
  rcases h.behind with hbehind | hcomma
  · have hdocument := recites_document s.point.offset s.point.rest s.limit
    obtain ⟨memory, hrun, -, hnew⟩ := hdocument.run s.memory (recalls_of_behind hbehind)
    refine ⟨_, memory, rfl, ?_, hdocument.reaches, ?_⟩
    · rwa [← hpoint] at hrun
    by_cases hcomma : (Outcome.stop
        (Strategy.plain.document s.limit (.start s.point.rest))).rest.head? = some ','
    · exact Or.inr hcomma
    · refine Or.inl fun o ho => ?_
      rcases hnew o ho with ho | ho | ⟨-, ho⟩
      · exact (hbehind o ho).trans_le (Nat.le_add_left _ _)
      · exact ho
      · exact absurd ho hcomma
  · obtain ⟨retries, hrun⟩ := run_document_of_comma s.limit hcomma s.memory
    have hfound := document_of_comma s.limit (p := .start s.point.rest) hcomma
    refine ⟨_, { s.memory with retries := retries }, hfound, ?_, .refl _, Or.inr hcomma⟩
    rw [hrun]
    exact congrArg (fun p => (Outcome.failed _ p, _)) hpoint

/-- The point reached is behind so many characters of the text as its offset says. -/
theorem Session.Settled.rest (h : s.Settled text) :
    s.point.offset ≤ text.length ∧ s.point.rest = text.drop s.point.offset := by
  obtain ⟨w, hw⟩ := h.reaches
  have hoffset : s.point.offset = w.length := hw.offset.trans (Nat.zero_add _)
  have htext : text = w ++ s.point.rest := hw.rest
  rw [hoffset]
  constructor
  · rw [htext, List.length_append]
    exact Nat.le_add_right _ _
  · conv_rhs => rw [htext, List.drop_left]

/-- One reading keeps a session settled. -/
theorem Session.Settled.next (h : s.Settled text) : s.read.2.Settled text := by
  obtain ⟨found, memory, -, hrun, ⟨w, hw⟩, hbehind⟩ := h.run
  rw [Session.read_eq hrun]
  refine ⟨h.reaches.trans ⟨w, ?_⟩, ?_⟩
  · simpa [Point.moved, Point.start] using hw.moved s.point.offset
  · simpa using hbehind

theorem settled_after (text : String) (limit : Option Int) (count : Nat) :
    ((Session.start text limit).after count).Settled text.toList := by
  induction count with
  | zero => exact settled_start text limit
  | succ count ih => exact ih.next

theorem limit_after (s : Session) (count : Nat) : (s.after count).limit = s.limit := by
  induction count with
  | zero => rfl
  | succ count ih => exact (congrArg (fun r => r.2.limit) (Session.read_eq rfl)).trans ih

/-- **To read on is to read what is left.**  After any number of readings, successful or not, the
next one finds what a first reading finds in the text from the point reached on, with the offset of
that point added to every position; what the session remembers never shows. -/
theorem read_after (text : String) (limit : Option Int) (count : Nat) :
    let s := (Session.start text limit).after count
    let fresh := Session.start (String.ofList (text.toList.drop s.point.offset)) limit
    s.point.offset ≤ text.toList.length ∧
      s.read.1 = fresh.read.1.mapError (Fault.moved s.point.offset) ∧
      s.read.2.point = fresh.read.2.point.moved s.point.offset := by
  intro s fresh
  have hsettled : s.Settled text.toList := settled_after text limit count
  obtain ⟨hoffset, hrest⟩ := hsettled.rest
  have hfresh : fresh.point.rest = s.point.rest :=
    (String.toList_ofList).trans hrest.symm
  have hlimit : s.limit = limit := limit_after _ count
  obtain ⟨found, memory, hfound, hrun, -⟩ := hsettled.run
  obtain ⟨found', memory', hfound', hrun', -⟩ :=
    (settled_start (String.ofList (text.toList.drop s.point.offset)) limit).run
  obtain rfl : found' = found := by
    rw [← hfound, ← hfound', hlimit]
    exact congrArg (fun t => Strategy.plain.document limit (.start t)) hfresh
  refine ⟨hoffset, ?_, ?_⟩
  · rw [Session.read_eq hrun, Session.read_eq hrun', Outcome.result_moved]
    exact congrArg (fun o => (Outcome.result o).mapError _) (Outcome.moved_zero found').symm
  · rw [Session.read_eq hrun, Session.read_eq hrun', Outcome.stop_moved]
    exact congrArg (fun o => (Outcome.stop o).moved _) (Outcome.moved_zero found').symm

end Literals.Reader
