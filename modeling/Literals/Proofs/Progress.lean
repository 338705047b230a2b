/-
# Every production goes on, inside the text

Whichever production is started, wherever in the text, with whatever was kept at some moment of a
session, **it does not stop before its start nor behind the text, and where it succeeds it has read
something**; and it leaves as many compounds open as it found.  So the compounds that are open at
one time stand one behind the other, and there can be no more of them than there are characters.

That is why reading ends.  The rules recur on the number of characters left, and the loops in them
count their rounds; but these numbers are never used up, and no larger ones make any difference
(`productions_move_on`).
-/
import Literals.Proofs.AccountedRules

namespace Literals.Reader

open Grammar Rule

/-! ## 1. Productions -/

/-- The productions, by what they read. -/
inductive Production : Type → Type
  | expression : Production Node
  | compound : Production Node
  | bracketed : Production Node
  | list : Production Node
  | set : Production Node
  | dict : Production Node
  | tuple : Production Node
  | setOrDict : Production Node
  | complexOrTuple : Production Node
  | elements (closing : Option Char) : Production (List Node)
  | entry : Production (Node × Node)
  | close (c : Char) (trailing : Bool) : Production Unit
  | single : Production Node
  | number : Production Node
  | complex : Production Node
  | imaginary : Production Number.Binary64
  | integer : Production Node
  | float : Production Node
  | string : Production Node
  | bool : Production Node
  | noneLiteral : Production Node

namespace Production

variable {α : Type}

/-- The rule for a production, where those for expressions and for compounds are known. -/
def rule {m : Type → Type} [Monad m] (note : Retry → m Unit) (expr compound : Rule m Node) :
    {α : Type} → Production α → Rule m α
  | _, .expression => expr
  | _, .compound => compound
  | _, .bracketed => Reader.bracketed note expr
  | _, .list => Reader.list expr
  | _, .set => Reader.set expr
  | _, .dict => Reader.dict expr
  | _, .tuple => Reader.tuple expr
  | _, .setOrDict => attempt note .set (Reader.set expr) (Reader.dict expr)
  | _, .complexOrTuple => attempt note .complex (Rule.lift Reader.complex) (Reader.tuple expr)
  | _, .elements closing => Reader.elements expr closing
  | _, .entry => Reader.entry expr
  | _, .close c trailing => Reader.close c trailing
  | _, .single => Reader.single note
  | _, .number => attempt note .complex (Rule.lift Reader.complex)
      (attempt note .float (Rule.lift Reader.float) (Rule.lift Reader.integer))
  | _, .complex => Rule.lift Reader.complex
  | _, .imaginary => Rule.lift Reader.imaginary
  | _, .integer => Rule.lift Reader.integer
  | _, .float => Rule.lift Reader.float
  | _, .string => Rule.lift Reader.string
  | _, .bool => Rule.lift Reader.bool
  | _, .noneLiteral => Rule.lift Reader.noneLiteral

/-- The rule of the reader that remembers, inside `depth` open compounds. -/
def remembered (limit : Option Int) (left depth : Nat) : Production α → Rule (StateM Memory) α :=
  rule Strategy.remembering.note (Strategy.remembering.expression limit left depth) do
    enter limit (depth + 1)
    recalled (Reader.bracketed Strategy.remembering.note
      (Strategy.remembering.expression limit left (depth + 1)))

/-- The rule of the reader that keeps account. -/
def accounted (spare : Rule (StateM Account) Node) (limit : Option Int) (left : Nat) :
    Production α → Rule (StateM Account) α :=
  rule Account.note (Account.expression spare limit left)
    (Account.compound limit (Reader.bracketed Account.note (Account.expression spare limit left)))

end Production

section Productions

variable {α : Type} {text : List Char} {depth low left left₀ : Nat} {p : Point}

/-- The expressions from a point on. -/
theorem nested_expression (spare : Rule (StateM Account) Node) (limit : Option Int)
    (hp : Reaches (.start text) p) (hlow : p.offset ≤ low) (hleft : p.rest.length ≤ left)
    (hleft₀ : p.rest.length ≤ left₀) : Nested text depth low (Account.expression spare limit left)
      (Strategy.remembering.expression limit left₀ depth) := by
  intro q hq
  have hshort : q.rest.length ≤ p.rest.length := by
    have := hp.length
    have := hq.reaches.length
    have := hq.le
    omega
  exact (accounts_expression spare limit 0 hq.reaches (hshort.trans hleft)
    (hshort.trans hleft₀)).mono hq.le

/-- **Every production does the same with an account**, and goes on where it succeeds. -/
theorem accounts_production (spare : Rule (StateM Account) Node) (limit : Option Int)
    (production : Production α) (hp : Reaches (.start text) p) (hleft : p.rest.length ≤ left)
    (hleft₀ : p.rest.length ≤ left₀) :
    Accounts text depth p.offset (production.accounted spare limit left)
      (production.remembered limit left₀ depth) (Beyond p) p := by
  have hnested {depth : Nat} : Nested text depth p.offset (Account.expression spare limit left)
      (Strategy.remembering.expression limit left₀ depth) :=
    nested_expression spare limit hp le_rfl hleft hleft₀
  have hsince : Since text p.offset p := ⟨hp, le_rfl⟩
  have hlow : p.offset ≤ p.offset + 1 := Nat.le_succ _
  have hcomplex : Accounts text depth p.offset _ _ (Beyond p) p :=
    accounts_lift quiet_complex advances_complex
  cases production with
  | expression => exact hnested hsince
  | compound =>
    have hinside : Nested text (depth + 1) (p.offset + 1) _ _ :=
      nested_expression spare limit hp hlow hleft hleft₀
    exact (accounts_bracketed hinside hp le_rfl).compound limit hp
  | bracketed => exact accounts_bracketed hnested hp hlow
  | list => exact accounts_list hnested hp hlow
  | set => exact accounts_set hnested hp hlow
  | dict => exact accounts_dict hnested hp hlow
  | tuple => exact accounts_tuple hnested hp hlow
  | setOrDict => exact (accounts_set hnested hp hlow).attempt (accounts_dict hnested hp hlow)
  | complexOrTuple => exact hcomplex.attempt (accounts_tuple hnested hp hlow)
  | elements closing => exact accounts_elements hnested closing hsince
  | entry => exact accounts_entry hnested hsince
  | close c trailing => exact accounts_close c trailing
  | single => exact accounts_single
  | number => exact accounts_number
  | complex => exact hcomplex
  | imaginary => exact accounts_lift quiet_imaginary advances_imaginary
  | integer => exact accounts_lift quiet_integer advances_integer
  | float => exact accounts_lift quiet_float advances_float
  | string => exact accounts_lift quiet_string advances_string
  | bool => exact accounts_lift quiet_bool advances_bool
  | noneLiteral => exact accounts_lift quiet_noneLiteral advances_noneLiteral

/-- From the same memory, two runs that do what one run with an account does are the same. -/
theorem Accounts.run_eq {r : Rule (StateM Account) α} {r₀ t₀ : Rule (StateM Memory) α}
    {Q R : α → Point → Prop} {w : Account} (h : Accounts text depth low r r₀ Q p)
    (h' : Accounts text depth low r t₀ R p) (hw : w.Ready text depth) :
    (r₀ p).run w.memory = (t₀ p).run w.memory := by
  obtain ⟨found, w', hrun, hrun₀, -⟩ := h w hw
  obtain ⟨found', w'', hrun', hrun₀', -⟩ := h' w hw
  obtain ⟨rfl, rfl⟩ := Prod.mk.inj (hrun.symm.trans hrun')
  exact hrun₀.trans hrun₀'.symm

end Productions

/-! ## 2. Progress -/

/-- A run from the offset that ends neither before it nor behind the text, and behind it if it is a
success; and with the same compounds open as before. -/
structure Moves {α : Type} (text : List Char) (i : Nat) (w : Account) (found : Outcome α)
    (w' : Account) : Prop where
  start : i ≤ found.stop.offset
  stop : found.stop.offset ≤ text.length
  progress : ∀ x q, found = .ok x q → i < q.offset
  depth : w'.depth = w.depth
  opened : w'.opened = w.opened

/-- The compounds that are open at some moment stand one behind the other in the text, and as many
are open as are counted. -/
structure Snapshot.Orderly (text : List Char) (m : Snapshot) : Prop where
  behind : m.opened.Pairwise (· > ·)
  counted : m.depth = m.opened.length
  inside : ∀ o ∈ m.opened, o ≤ text.length

/-- A production that is started at the offset goes on, with the account as it is, and does what it
does without an account; and neither for it nor for a loop does it matter whether `left` or `left'`
is given as the number of characters left. -/
structure GoesOn (text : List Char) (limit : Option Int) (spare : Rule (StateM Account) Node)
    (i left left' : Nat) (w : Account) : Prop where
  production {α : Type} (production : Production α) : ∃ found w',
    ((production.accounted spare limit left ⟨i, text.drop i⟩).run w).run = (found, w') ∧
      ((production.remembered limit left' w.depth ⟨i, text.drop i⟩).run w.memory).run =
        (found, w'.memory) ∧ Moves text i w found w'
  elements (closing : Option Char) :
    (more (Strategy.remembering.expression limit left w.depth) closing left
        ⟨i, text.drop i⟩).run w.memory =
      (more (Strategy.remembering.expression limit left' w.depth) closing left'
        ⟨i, text.drop i⟩).run w.memory
  entries :
    (moreEntries (Strategy.remembering.expression limit left w.depth) left
        ⟨i, text.drop i⟩).run w.memory =
      (moreEntries (Strategy.remembering.expression limit left' w.depth) left'
        ⟨i, text.drop i⟩).run w.memory

/-- Every production goes on from an account that is ready, given no less than the number of
characters left. -/
theorem goesOn_of_ready {text : List Char} {limit : Option Int} {spare : Rule (StateM Account) Node}
    {i left left' : Nat} {w : Account} (hi : i ≤ text.length) (hleft : text.length - i ≤ left)
    (hleft' : text.length - i ≤ left') (hready : w.Ready text w.depth) :
    GoesOn text limit spare i left left' w := by
  have hp : Reaches (.start text) ⟨i, text.drop i⟩ := reaches_drop hi
  have hlength : (text.drop i).length = text.length - i := List.length_drop
  rw [← hlength] at hleft hleft'
  have hnested {count : Nat} (hcount : (text.drop i).length ≤ count) : Nested text w.depth i
      (Account.expression spare limit left)
      (Strategy.remembering.expression limit count w.depth) :=
    nested_expression spare limit hp le_rfl hleft hcount
  have hsince : Since text i ⟨i, text.drop i⟩ := ⟨hp, le_rfl⟩
  refine ⟨fun production => ?_, fun closing => ?_, ?_⟩
  · obtain ⟨found, w', hrun, hrun₀, hreaches, hbeyond, hleads, -⟩ :=
      accounts_production spare limit production hp hleft hleft' w hready
    have hstop : found.stop.offset ≤ text.length := by
      have := (hp.trans hreaches).length
      omega
    exact ⟨found, w', hrun, hrun₀, hreaches.offset_le, hstop, hbeyond, hleads.depth, hleads.opened⟩
  · exact (accounts_more (hnested hleft) closing hsince hleft hleft).run_eq
      (accounts_more (hnested hleft') closing hsince hleft hleft') hready
  · exact (accounts_moreEntries (hnested hleft) hsince hleft hleft).run_eq
      (accounts_moreEntries (hnested hleft') hsince hleft hleft') hready

/-- **Every production goes on, inside the text.**  After any number of readings, a session with an
account stands where the one without stands and knows the same, whatever `spare` would do; and the
next reading gives the same.  At every moment so far, the compounds that were open were nested in
the text (`Snapshot.Orderly`).  From what was kept then, with whatever compounds open, a production
that is started at an offset of the text goes on, however much more than the characters left it is
given (`GoesOn`). -/
theorem productions_move_on (text : String) (limit : Option Int)
    (spare : Rule (StateM Account) Node) (count : Nat) :
    let t := (Session.start text limit).after count
    let s := (AccountedSession.start text limit).after spare count
    s.Beside t ∧ Answers (s.read spare).2.account.errors (s.read spare).1 t.read.1 ∧
      ∀ m ∈ s.account.snapshots, m.Orderly text.toList ∧
        ∀ i ≤ text.toList.length, ∀ (depth : Nat) (opened : List Nat),
          ∀ left ≥ text.toList.length - i, ∀ left' ≥ text.toList.length - i,
            GoesOn text.toList limit spare i left left'
              { s.account with toSnapshot := ⟨m.memory, m.kept, depth, opened⟩ } := by
  intro t s
  have hfollows : s.Follows text.toList t := AccountedSession.follows_after text limit spare count
  refine ⟨hfollows.toBeside, (hfollows.next spare).2, fun m hm => ⟨?_, ?_⟩⟩
  · obtain ⟨inner, hopened, hdepth, hpairwise, hinner⟩ := (hfollows.snapshots m hm).2
    obtain rfl : m.opened = inner := hopened.trans (List.append_nil inner)
    exact ⟨hpairwise, hdepth.trans (Nat.zero_add _), fun o ho => (hinner o ho).2⟩
  · intro i hi depth opened left hleft left' hleft'
    refine goesOn_of_ready hi hleft hleft' ⟨?_, rfl, hfollows.ready.raised⟩
    exact (hfollows.snapshots m hm).1.congr rfl rfl

end Literals.Reader
