import Mathlib.Data.List.Forall2
import SourceBundle.GoSymbols

/-!
# Documentation on moved rows

Whether a comment documents a part depends on how many lines lie between things that stand in one
stretch of the source, never on the lines before that stretch. Two lists of pieces whose stretches
stand on different rows give the same documentation.
-/

namespace SourceBundle.Go

def Comment.lowered (c : Comment) (rows : Nat) : Comment :=
  ⟨c.text, c.startRow + rows, c.endRow + rows⟩

def Piece.lowered {α : Type} (rows : Nat) : Piece α → Piece α
  | .comment c => .comment (c.lowered rows)
  | .mark => .mark
  | .item startRow endRow value => .item (startRow + rows) (endRow + rows) value

variable {α : Type} {same : α → α → Prop}

/-- Two lists of pieces are alike but for the rows of their stretches: the numbers of lines above the
first stretch are given, and each item may end on a row of a further stretch. -/
inductive Alike (same : α → α → Prop) : (rows rows' : Nat) → List (Piece α) → List (Piece α) → Prop
  | nil {rows rows'} : Alike same rows rows' [] []
  | comment {rows rows' pieces pieces'} (c : Comment) (h : Alike same rows rows' pieces pieces') :
      Alike same rows rows' (.comment (c.lowered rows) :: pieces)
        (.comment (c.lowered rows') :: pieces')
  | mark {rows rows' pieces pieces'} (h : Alike same rows rows' pieces pieces') :
      Alike same rows rows' (.mark :: pieces) (.mark :: pieces')
  | item {rows rows' further further' value value' pieces pieces'} (startRow endRow : Nat)
      (hvalue : same value value') (h : Alike same further further' pieces pieces') :
      Alike same rows rows' (.item (startRow + rows) (endRow + further) value :: pieces)
        (.item (startRow + rows') (endRow + further') value' :: pieces')

theorem Alike.comments {rows rows' : Nat} {pieces pieces' : List (Piece α)} (comments : List Comment)
    (h : Alike same rows rows' pieces pieces') :
    Alike same rows rows' ((comments.map fun c => c.lowered rows).map .comment ++ pieces)
      ((comments.map fun c => c.lowered rows').map .comment ++ pieces') := by
  induction comments with
  | nil => exact h
  | cons c comments ih => exact .comment c ih

theorem alike_comments (rows rows' : Nat) (comments : List Comment) :
    Alike same rows rows' ((comments.map fun c => c.lowered rows).map .comment)
      ((comments.map fun c => c.lowered rows').map .comment) := by
  induction comments with
  | nil => exact .nil
  | cons c comments ih => exact .comment c ih

theorem Alike.terminator {rows rows' : Nat} {pieces pieces' : List (Piece α)} (c : Cursor)
    (h : Alike same rows rows' pieces pieces') :
    Alike same rows rows' (terminatorPieces c ++ pieces) (terminatorPieces c ++ pieces') := by
  rw [terminatorPieces]
  split
  · exact h
  · exact .mark h

theorem Alike.of_add {rows rows' : Nat} (more : Nat) {pieces pieces' : List (Piece α)}
    (h : Alike same (rows + more) (rows' + more) pieces pieces') :
    Alike same rows rows' pieces pieces' := by
  have hrow (row rows : Nat) : row + (rows + more) = row + more + rows := by omega
  have hlowered (c : Comment) (rows : Nat) :
      c.lowered (rows + more) = (c.lowered more).lowered rows := by
    simp only [Comment.lowered, hrow]
  generalize hfirst : rows + more = first at h
  generalize hfirst' : rows' + more = first' at h
  induction h with
  | nil => exact .nil
  | comment c _ ih =>
    subst hfirst hfirst'
    rw [hlowered, hlowered]
    exact .comment _ (ih rfl rfl)
  | mark _ ih => exact .mark (ih hfirst hfirst')
  | item startRow endRow hvalue h _ =>
    subst hfirst hfirst'
    rw [hrow, hrow]
    exact .item (startRow + more) endRow hvalue h

/-- The same of two lists that are given backwards, with the numbers of lines above the last
stretch. -/
inductive AlikeBefore : (rows rows' : Nat) → List (Piece α) → List (Piece α) → Prop
  | nil {rows rows'} : AlikeBefore rows rows' [] []
  | comment {rows rows' before before'} (c : Comment) (h : AlikeBefore rows rows' before before') :
      AlikeBefore rows rows' (.comment (c.lowered rows) :: before)
        (.comment (c.lowered rows') :: before')
  | mark {rows rows' before before'} (h : AlikeBefore rows rows' before before') :
      AlikeBefore rows rows' (.mark :: before) (.mark :: before')
  | item {rows rows' earlier earlier' before before'} (startRow endRow : Nat) (value value' : α)
      (h : AlikeBefore earlier earlier' before before') :
      AlikeBefore rows rows' (.item (startRow + earlier) (endRow + rows) value :: before)
        (.item (startRow + earlier') (endRow + rows') value' :: before')

theorem AlikeBefore.trails_eq {rows rows' : Nat} {before before' : List (Piece α)}
    (h : AlikeBefore rows rows' before before') (c : Comment) :
    trails (c.lowered rows) before = trails (c.lowered rows') before' := by
  induction h with
  | nil => rfl
  | comment => rfl
  | mark _ ih => exact ih
  | item startRow endRow => simp [trails, Comment.lowered, beq_eq_decide]

theorem AlikeBefore.bodies_commentsAbove {rows rows' : Nat} {before before' : List (Piece α)}
    (h : AlikeBefore rows rows' before before') (row : Nat) :
    (commentsAbove (row + rows) before).map Comment.body =
      (commentsAbove (row + rows') before').map Comment.body := by
  induction h generalizing row with
  | nil => rfl
  | @comment rows rows' before before' c h ih =>
    have hrow (rows : Nat) : ((c.lowered rows).endRow + 1 == row + rows) = (c.endRow + 1 == row) := by
      rw [Bool.eq_iff_iff, beq_iff_eq, beq_iff_eq]
      simp only [Comment.lowered]
      omega
    rw [commentsAbove, commentsAbove, hrow, hrow, h.trails_eq c]
    split
    · rw [List.map_cons, List.map_cons]
      exact congrArg₂ List.cons rfl (ih c.startRow)
    · rfl
  | mark => rfl
  | item => rfl

theorem AlikeBefore.docText_eq {rows rows' : Nat} {before before' : List (Piece α)}
    (h : AlikeBefore rows rows' before before') (row : Nat) :
    docText (commentsAbove (row + rows) before) =
      docText (commentsAbove (row + rows') before') := by
  rw [docText, docText, List.map_reverse, List.map_reverse, h.bodies_commentsAbove row]

theorem Alike.documentedFrom {rows rows' : Nat} {pieces pieces' before before' : List (Piece α)}
    (h : Alike same rows rows' pieces pieces') (hbefore : AlikeBefore rows rows' before before') :
    List.Forall₂ (fun p p' => same p.1 p'.1 ∧ p.2 = p'.2) (documentedFrom before pieces)
      (documentedFrom before' pieces') := by
  induction h generalizing before before' with
  | nil => exact .nil
  | comment c _ ih => exact ih (.comment c hbefore)
  | mark _ ih => exact ih (.mark hbefore)
  | item startRow endRow hvalue _ ih =>
    exact .cons ⟨hvalue, hbefore.docText_eq startRow⟩ (ih (.item startRow endRow _ _ hbefore))

/-- Alike pieces have the same documentation. -/
theorem Alike.documented {rows rows' : Nat} {pieces pieces' : List (Piece α)}
    (h : Alike same rows rows' pieces pieces') :
    List.Forall₂ (fun p p' => same p.1 p'.1 ∧ p.2 = p'.2) (documented pieces)
      (documented pieces') :=
  h.documentedFrom .nil

theorem alike_lowered (rows : Nat) (pieces : List (Piece α)) :
    Alike Eq 0 rows pieces (pieces.map (Piece.lowered rows)) := by
  induction pieces with
  | nil => exact .nil
  | cons piece pieces ih =>
    cases piece with
    | comment c => exact .comment c ih
    | mark => exact .mark ih
    | item startRow endRow value => exact .item startRow endRow rfl ih

theorem documented_lowered (rows : Nat) (pieces : List (Piece α)) :
    documented (pieces.map (Piece.lowered rows)) = documented pieces := by
  have hsame := (alike_lowered rows pieces).documented
  have heq : List.Forall₂ Eq (documented pieces) (documented (pieces.map (Piece.lowered rows))) :=
    hsame.imp fun _ _ h => Prod.ext h.1 h.2
  exact (List.forall₂_eq_eq_eq ▸ heq).symm

/-! ## Moved declarations -/

def TypeShape.lowered (rows : Nat) : TypeShape → TypeShape
  | .struct members => .struct (members.map (Piece.lowered rows))
  | .interface members => .interface (members.map (Piece.lowered rows))
  | .other => .other

def TypeSpec.lowered (rows : Nat) (spec : TypeSpec) : TypeSpec :=
  ⟨spec.name, spec.shape.lowered rows⟩

theorem TypeSpec.symbol_lowered (rows : Nat) (spec : TypeSpec) (doc : Option String) :
    (spec.lowered rows).symbol doc = spec.symbol doc := by
  rcases spec with ⟨name, shape⟩
  cases shape with
  | struct members => simp only [lowered, TypeShape.lowered, symbol, documented_lowered]
  | interface members => simp only [lowered, TypeShape.lowered, symbol, documented_lowered]
  | other => rfl

end SourceBundle.Go
