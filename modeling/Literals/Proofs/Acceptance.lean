/-
# The reader accepts its grammar

`read` succeeds on a text exactly when the text is an expression of the grammar, and returns the
tree that the productions give.  **Neither the order in which alternatives are tried nor the memory
of what was found can be seen in what is accepted.**
-/
import Literals.Proofs.Completeness
import Literals.Proofs.Remembering

namespace Literals.Reader

open Grammar Rule

/-- A text that is an expression is read to its end. -/
theorem document_of_expr {text : List Char} {r : Node} (h : Expr text r) :
    ∃ q, Strategy.plain.document none (.start text) = .ok r q := by
  have hspan : Spans (.start text) text ⟨text.length, []⟩ :=
    ⟨(List.append_nil text).symm, (Nat.zero_add _).symm⟩
  obtain ⟨w, hw, hspan, c, hc, -⟩ := expr_skipBlanks h hspan
  have hne : (Point.start text).skipBlanks.rest ≠ [] := by
    intro hnil
    simp [hnil] at hc
  have hroot := complete_expression _ 0 hw hspan nofun le_rfl
  refine ⟨⟨text.length, []⟩, ?_⟩
  rw [Strategy.document, bind_of_ok blanks_eq, bind_of_ok here_eq, if_neg hne, bind_of_ok hroot,
    bind_of_ok ahead_eq, List.head?_nil, if_pos rfl]
  exact pure_eq_ok.mpr ⟨rfl, rfl⟩

/-- **Whatever is read as a document is an expression**, under every limit. -/
theorem expr_of_document {limit : Option Int} {text : List Char} {r : Node} {q : Point}
    (h : Strategy.plain.document limit (.start text) = .ok r q) : Expr text r := by
  rw [Strategy.document, bind_of_ok blanks_eq, bind_of_ok here_eq] at h
  obtain ⟨u, hu, hus⟩ := spans_skipBlanks (.start text)
  split at h
  next => exact absurd h fail_ne_ok
  next =>
    obtain ⟨root, m, hroot, h⟩ := bind_eq_ok.mp h
    obtain ⟨w, hw, hws⟩ := sound_expression _ _ _ hroot
    rw [bind_of_ok ahead_eq] at h
    split at h
    next hend =>
      obtain ⟨rfl, rfl⟩ := pure_eq_ok.mp h
      have htext : text = u ++ w := by
        have hrest : text = u ++ w ++ m.rest := (hus.append hws).rest
        rw [List.head?_eq_none_iff.mp hend, List.append_nil] at hrest
        exact hrest
      rw [htext]
      exact hw.blank_append hu
    next => exact absurd h fail_ne_ok

theorem read_of_expr {text : String} {r : Node} (h : Expr text.toList r) :
    read text none = .ok ⟨r⟩ :=
  read_eq_ok.mpr (document_of_expr h)

theorem expr_of_read {limit : Option Int} {text : String} {t : Tree}
    (h : read text limit = .ok t) : Expr text.toList t.root := by
  obtain ⟨q, hq⟩ := read_eq_ok.mp h
  exact expr_of_document hq

/-- **The reader accepts exactly its grammar**: without a limit, a text is read as a tree if and
only if the productions derive the text for that tree. -/
theorem read_eq_ok_iff_expr (text : String) (r : Node) :
    read text none = .ok ⟨r⟩ ↔ Expr text.toList r :=
  ⟨expr_of_read, read_of_expr⟩

end Literals.Reader
