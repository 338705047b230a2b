/-
# Runs of cursor operations

A cursor may be told to do anything in any order, and its position may come to lie past the end.
`Steps` says what each operation does, in terms of the text and of positions in it alone: what it
answers and where it leaves the cursor, inside the text, at its end and past it.  **Every operation
of every run is such a step** (`steps_after`), and the text stays what it was.
-/
import Literals.Cursor
import Mathlib.Data.List.TakeWhile

namespace Literals.Cursor

/-! ## 1. Operations -/

/-- What a cursor may be told to do. -/
inductive Operation where
  | peek
  | next
  | read (n : Nat)
  | scanWhile (set : List Char)
  | scanUntil (set : List Char)
  | skipBlanks
  | bookmark
  | goTo (position : Nat)
  | rewind (n : Int)
  | hasMore
  | remaining
  | isAt (start : List Char)

/-- What an operation answers. -/
inductive Answer where
  | nothing
  | char (c : Char)
  | text (s : List Char)
  | flag (b : Bool)
  | position (i : Nat)

/-- A reading that may fail, which it does where it stands. -/
def attempt {α : Type} (c : Cursor) (answer : α → Answer) :
    Except Cause (α × Cursor) → Except Cause Answer × Cursor
  | .ok (a, c') => (.ok (answer a), c')
  | .error e => (.error e, c)

/-- Performs an operation: its answer or failure, and the cursor afterwards. -/
def perform (c : Cursor) : Operation → Except Cause Answer × Cursor
  | .peek => (c.peek.map .char, c)
  | .next => c.attempt .char c.next
  | .read n => c.attempt .text (c.read n)
  | .scanWhile set => (.ok (.text (c.scanWhile set).1), (c.scanWhile set).2)
  | .scanUntil set => (.ok (.text (c.scanUntil set).1), (c.scanUntil set).2)
  | .skipBlanks => (.ok .nothing, c.skipBlanks)
  | .bookmark => (.ok (.position c.position), c)
  | .goTo position => (.ok .nothing, c.goTo position)
  | .rewind n => (.ok .nothing, c.rewind n)
  | .hasMore => (.ok (.flag c.hasMore), c)
  | .remaining => (.ok (.text c.remaining), c)
  | .isAt start => (.ok (.flag (c.isAt start)), c)

/-- The cursor after some operations. -/
def after (c : Cursor) (ops : List Operation) : Cursor :=
  ops.foldl (fun c op => (c.perform op).2) c

/-! ## 2. Steps -/

/-- The characters of a text from one position to another. -/
def between (text : List Char) (i j : Nat) : List Char :=
  (text.drop i).take (j - i)

/-- From `i` on the characters are of the class, up to `j`, where the text ends or has another. -/
structure ScansTo (text : List Char) (inClass : Char → Bool) (i j : Nat) : Prop where
  le : i ≤ j
  inside : ∀ k, i ≤ k → k < j → ∃ d ∈ text[k]?, inClass d = true
  stops : ∀ d ∈ text[j]?, inClass d = false

/-- What an operation answers at a position of a text, and the position afterwards. -/
inductive Steps (text : List Char) : Operation → Nat → Except Cause Answer → Nat → Prop
  | peek {i : Nat} {d : Char} : text[i]? = some d → Steps text .peek i (.ok (.char d)) i
  | peekEnd {i : Nat} : text.length ≤ i → Steps text .peek i (.error .endOfInput) i
  | next {i : Nat} {d : Char} : between text i (i + 1) = [d] →
      Steps text .next i (.ok (.char d)) (i + 1)
  | nextEnd {i : Nat} : text.length ≤ i → Steps text .next i (.error .endOfInput) i
  | read {i n : Nat} : i + n ≤ text.length →
      Steps text (.read n) i (.ok (.text (between text i (i + n)))) (i + n)
  | readEnd {i n : Nat} : text.length < i + n → Steps text (.read n) i (.error .endOfInput) i
  | scanWhile {set : List Char} {i j : Nat} : ScansTo text (fun d => set.contains d) i j →
      Steps text (.scanWhile set) i (.ok (.text (between text i j))) j
  | scanUntil {set : List Char} {i j : Nat} : ScansTo text (fun d => !set.contains d) i j →
      Steps text (.scanUntil set) i (.ok (.text (between text i j))) j
  | skipBlanks {i j : Nat} : ScansTo text Text.isBlank i j →
      Steps text .skipBlanks i (.ok .nothing) j
  | bookmark {i : Nat} : Steps text .bookmark i (.ok (.position i)) i
  | goTo {i j : Nat} : Steps text (.goTo j) i (.ok .nothing) j
  | rewind {n : Int} {i j : Nat} : (j : Int) = max 0 (i - n) →
      Steps text (.rewind n) i (.ok .nothing) j
  | hasMore {i : Nat} : Steps text .hasMore i (.ok (.flag (i < text.length))) i
  | remaining {i : Nat} : Steps text .remaining i (.ok (.text (text.drop i))) i
  | isAt {start : List Char} {i : Nat} {b : Bool} :
      (b = true ↔ i ≤ text.length ∧ start <+: text.drop i) →
      Steps text (.isAt start) i (.ok (.flag b)) i

/-- Where an operation has nothing to read. -/
def Operation.Lacks (text : List Char) (i : Nat) : Operation → Prop
  | .peek => text.length ≤ i
  | .next => text.length ≤ i
  | .read n => text.length < i + n
  | _ => False

section Steps

variable {text : List Char} {op : Operation} {i j : Nat} {r : Except Cause Answer}
  {f : Char → Bool}

/-- A scan does not move a position at the end or past it. -/
theorem ScansTo.eq_of_length_le (h : ScansTo text f i j) (hi : text.length ≤ i) : j = i := by
  by_contra hne
  obtain ⟨d, hd, -⟩ := h.inside i le_rfl (lt_of_le_of_ne h.le (Ne.symm hne))
  rw [List.getElem?_eq_none hi] at hd
  cases hd

/-- An operation fails where it lacks something to read, and nowhere else. -/
theorem Steps.error_iff (h : Steps text op i r j) : (∃ e, r = .error e) ↔ op.Lacks text i := by
  cases h with
  | peek hd => simpa [Operation.Lacks] using (List.getElem?_eq_some_iff.mp hd).1
  | peekEnd hi => exact ⟨fun _ => hi, fun _ => ⟨_, rfl⟩⟩
  | next hd =>
    refine ⟨nofun, fun hi : text.length ≤ i => ?_⟩
    rw [between, List.drop_eq_nil_of_le hi, List.take_nil] at hd
    cases hd
  | nextEnd hi => exact ⟨fun _ => hi, fun _ => ⟨_, rfl⟩⟩
  | read hi => simpa [Operation.Lacks] using hi
  | readEnd hi => exact ⟨fun _ => hi, fun _ => ⟨_, rfl⟩⟩
  | _ => exact ⟨nofun, nofun⟩

/-- A failure is about the end of the input and leaves the position. -/
theorem Steps.of_error {e : Cause} (h : Steps text op i (.error e) j) :
    e = .endOfInput ∧ j = i := by
  cases h with
  | _ => exact ⟨rfl, rfl⟩

end Steps

/-! ## 3. What the operations do -/

theorem eq_of_eq {c c' : Cursor} (htext : c.text = c'.text) (hposition : c.position = c'.position) :
    c = c' :=
  congr (congrArg mk htext) hposition

section Perform

variable (c : Cursor)

theorem head?_remaining : c.remaining.head? = c.text[c.position]? :=
  List.head?_drop ..

/-- **A scan reads the text up to where its class ends.** -/
theorem scansTo_scan (f : Char → Bool) :
    ScansTo c.text f c.position (c.scan f).2.position ∧
      (c.scan f).1 = between c.text c.position (c.scan f).2.position := by
  have hj : (c.scan f).2.position = c.position + (c.scan f).1.length := rfl
  have hrest : (c.scan f).1 ++ c.remaining.dropWhile f = c.remaining :=
    List.takeWhile_append_dropWhile
  have hget : ∀ m, c.text[c.position + m]? = ((c.scan f).1 ++ c.remaining.dropWhile f)[m]? := by
    intro m
    rw [hrest, remaining, List.getElem?_drop]
  refine ⟨⟨by omega, fun k hk hkj => ?_, fun d hd => ?_⟩, ?_⟩
  · obtain ⟨m, rfl⟩ := Nat.exists_eq_add_of_le hk
    have hm : m < (c.scan f).1.length := by omega
    refine ⟨(c.scan f).1[m], ?_, List.mem_takeWhile_imp (List.getElem_mem hm)⟩
    rw [hget, List.getElem?_append_left hm, List.getElem?_eq_getElem hm]
    rfl
  · rw [hj, hget, List.getElem?_append_right le_rfl, Nat.sub_self, ← List.head?_eq_getElem?] at hd
    have hstop := List.head?_dropWhile_not f c.remaining
    rw [Option.mem_def.mp hd] at hstop
    simpa using hstop
  · rw [hj, between, Nat.add_sub_cancel_left]
    exact List.prefix_iff_eq_take.mp ⟨_, hrest⟩

theorem steps_peek : Steps c.text .peek c.position (c.peek.map .char) c.position := by
  rw [peek]
  split
  next h => exact .peekEnd (List.drop_eq_nil_iff.mp h)
  next d rest h => exact .peek (by rw [← head?_remaining, h]; rfl)

theorem steps_next :
    Steps c.text .next c.position (c.perform .next).1 (c.perform .next).2.position := by
  rw [perform, next]
  split
  next h => exact .nextEnd (List.drop_eq_nil_iff.mp h)
  next d rest h =>
    refine .next ?_
    rw [between, Nat.add_sub_cancel_left]
    exact congrArg (List.take 1) h

theorem steps_read (n : Nat) :
    Steps c.text (.read n) c.position (c.perform (.read n)).1 (c.perform (.read n)).2.position := by
  rw [perform, read]
  split
  next h => exact .readEnd h
  next h =>
    have hread := Steps.read (Nat.le_of_not_lt h)
    rwa [between, Nat.add_sub_cancel_left] at hread

theorem steps_isAt (start : List Char) :
    Steps c.text (.isAt start) c.position (.ok (.flag (c.isAt start))) c.position := by
  refine .isAt ?_
  rw [isAt, Bool.and_eq_true, decide_eq_true_iff, List.isPrefixOf_iff_prefix]
  rfl

theorem steps_rewind (n : Int) :
    Steps c.text (.rewind n) c.position (.ok .nothing) (c.rewind n).position := by
  refine .rewind ?_
  change (((c.position : Int) - n).toNat : Int) = _
  omega

/-- **Every operation is a step.** -/
theorem steps_perform (op : Operation) :
    Steps c.text op c.position (c.perform op).1 (c.perform op).2.position := by
  cases op with
  | peek => exact c.steps_peek
  | next => exact c.steps_next
  | read n => exact c.steps_read n
  | scanWhile set =>
    obtain ⟨hscan, hbetween⟩ := c.scansTo_scan fun d => set.contains d
    have hstep := Steps.scanWhile hscan
    rwa [← hbetween] at hstep
  | scanUntil set =>
    obtain ⟨hscan, hbetween⟩ := c.scansTo_scan fun d => !set.contains d
    have hstep := Steps.scanUntil hscan
    rwa [← hbetween] at hstep
  | skipBlanks => exact .skipBlanks (c.scansTo_scan Text.isBlank).1
  | bookmark => exact .bookmark
  | goTo i => exact .goTo
  | rewind n => exact c.steps_rewind n
  | hasMore => exact .hasMore
  | remaining => exact .remaining
  | isAt start => exact c.steps_isAt start

@[simp] theorem text_perform (op : Operation) : (c.perform op).2.text = c.text := by
  cases op with
  | next =>
    rw [perform, next]
    split <;> rfl
  | read n =>
    rw [perform, read]
    split <;> rfl
  | _ => rfl

end Perform

/-! ## 4. Runs -/

@[simp] theorem text_after (c : Cursor) (ops : List Operation) : (c.after ops).text = c.text := by
  induction ops generalizing c with
  | nil => rfl
  | cons op ops ih => exact (ih _).trans (c.text_perform op)

/-- What a cursor says to stand at its position is read from there. -/
theorem read_of_isAt {c : Cursor} {s : List Char} (h : c.isAt s = true) :
    c.read s.length = .ok (s, c.goTo (c.position + s.length)) := by
  rw [isAt, Bool.and_eq_true, decide_eq_true_iff, List.isPrefixOf_iff_prefix] at h
  obtain ⟨hle, hprefix⟩ := h
  have hlength : s.length ≤ c.text.length - c.position := by
    simpa [remaining] using hprefix.length_le
  rw [read, if_neg (by omega), ← List.prefix_iff_eq_take.mp hprefix]
  rfl

/-- **In every run every operation does what it should.**  After any operations the text is what it
was, and the next one is a step from the position reached: what is read or scanned is the text from
there to the position afterwards, and a scan stops where its class or the text ends.  An operation
fails exactly where it has nothing to read, for the one reason, and leaves the cursor as it is.  At
the end and past it no scan moves, and a text that stands at the position is read from there. -/
theorem steps_after (text : String) (ops : List Operation) (op : Operation) :
    let c := (start text).after ops
    let i := c.position
    let j := (c.perform op).2.position
    (c.perform op).2.text = text.toList ∧ Steps text.toList op i (c.perform op).1 j ∧
      ((∃ e, (c.perform op).1 = .error e) ↔ op.Lacks text.toList i) ∧
      (∀ e, (c.perform op).1 = .error e → e = .endOfInput ∧ (c.perform op).2 = c) ∧
      (∀ f, text.toList.length ≤ i → (c.scan f).2 = c) ∧
      ∀ s, c.isAt s = true → c.read s.length = .ok (s, c.goTo (i + s.length)) := by
  intro c i j
  have htext : c.text = text.toList := text_after _ ops
  have hstep : Steps text.toList op i (c.perform op).1 j := htext ▸ c.steps_perform op
  refine ⟨(c.text_perform op).trans htext, hstep, hstep.error_iff, fun e he => ?_, fun f hi => ?_,
    fun s => read_of_isAt⟩
  · obtain ⟨hcause, hj⟩ := Steps.of_error (he ▸ hstep)
    exact ⟨hcause, eq_of_eq (c.text_perform op) hj⟩
  · have hend : c.text.length ≤ c.position := htext ▸ hi
    exact eq_of_eq rfl ((c.scansTo_scan f).1.eq_of_length_le hend)

end Literals.Cursor
