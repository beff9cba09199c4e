import SourceBundle.Proofs.GoCursors

/-!
# How a list of items is laid out

The members of a type in braces and the declarations of a source are lists of the same kind: items
with gaps of blanks and comments around them, each item up to a terminator on the line where it ends.
The pieces that a list is read as are the comments, the terminators that are no line ends and the
items of such a layout, in the order of the source.
-/

namespace SourceBundle.Go

inductive SpanKind where
  | comment
  /-- A semicolon or NUL that ends an item. -/
  | mark
  | item
  deriving DecidableEq, Repr

/-- A stretch of a source that stands in a list of items. -/
structure Span where
  kind : SpanKind
  start : Cursor
  stop : Cursor
  deriving Repr

namespace Span

def comment (s : Span) : Comment :=
  ⟨s.start.textTo s.stop, s.start.row, s.stop.row⟩

def piece {α : Type} (value : Cursor → Cursor → α) (s : Span) : Piece α :=
  match s.kind with
  | .comment => .comment s.comment
  | .mark => .mark
  | .item => .item s.start.row s.stop.row (value s.start s.stop)

end Span

def isGapBlank (pastLines : Bool) (ch : Char) : Bool :=
  isLineBlank ch || (pastLines && ch == '\n')

/-- Nothing but blanks and comments stand between two cursors, and neither stands at the second. The
spans are the comments. -/
inductive Gap (pastLines : Bool) : Cursor → List Span → Cursor → Prop
  | done {c} (hblank : ∀ ch, c.rest.head? = some ch → isGapBlank pastLines ch = false)
      (hcomment : commentLength? c.rest = none) : Gap pastLines c [] c
  | blank {c ch spans d} (hch : c.rest.head? = some ch) (hblank : isGapBlank pastLines ch = true)
      (hrest : Gap pastLines c.next spans d) : Gap pastLines c spans d
  | comment {c n spans d} (hn : commentLength? c.rest = some n)
      (hrest : Gap pastLines (c.advance n) spans d) :
      Gap pastLines c (⟨.comment, c, c.advance n⟩ :: spans) d

def EndsItem (c : Cursor) : Prop :=
  ∃ ch cs, c.rest = ch :: cs ∧ (ch = '\n' ∨ ch = ';' ∨ ch = '\x00')

def terminatorSpans (c : Cursor) : List Span :=
  if c.rest.head? == some '\n' then [] else [⟨.mark, c, c.next⟩]

/-- Items that a form describes stand between two cursors, with the spans of the list. -/
inductive Layout (fuel : Nat) (form : Form) : Cursor → List Span → Cursor → Prop
  /-- No item is left. -/
  | gap {c spans d} (hgap : Gap true c spans d) : Layout fuel form c spans d
  /-- The last item, without a terminator. -/
  | last {c before start stop behind d} (hbefore : Gap true c before start)
      (hstop : stop ∈ form.ends fuel start) (hbehind : Gap false stop behind d) :
      Layout fuel form c (before ++ ⟨.item, start, stop⟩ :: behind) d
  | item {c before start stop behind next spans d} (hbefore : Gap true c before start)
      (hstop : stop ∈ form.ends fuel start) (hbehind : Gap false stop behind next)
      (hend : EndsItem next) (hrest : Layout fuel form next.next spans d) :
      Layout fuel form c
        (before ++ ⟨.item, start, stop⟩ :: behind ++ terminatorSpans next ++ spans) d

/-! ## What is read is laid out so -/

theorem commentLength?_pos {text : List Char} {n : Nat} (h : commentLength? text = some n) :
    0 < n := by
  unfold commentLength? at h
  split at h
  · cases h
    exact Nat.succ_pos _
  · obtain ⟨m, -, rfl⟩ := Option.map_eq_some_iff.mp h
    exact Nat.succ_pos _
  · cases h

theorem Cursor.next_rest (c : Cursor) : c.next.rest = c.rest.tail := by
  rw [Cursor.next]
  split <;> simp [*]

theorem Cursor.advance_rest (c : Cursor) (n : Nat) : (c.advance n).rest = c.rest.drop n := by
  induction n generalizing c with
  | zero => rfl
  | succ n ih => rw [advance, ih, next_rest, List.drop_tail]

theorem gap_skipFrom {pastLines : Bool} {fuel : Nat} {c : Cursor} (h : c.rest.length ≤ fuel) :
    ∃ spans, Gap pastLines c spans (skipFrom pastLines fuel c).2 ∧
      (skipFrom pastLines fuel c).1 = spans.map Span.comment := by
  fun_induction skipFrom pastLines fuel c with
  | case1 c =>
    have hrest : c.rest = [] := List.length_eq_zero_iff.mp (Nat.le_zero.mp h)
    exact ⟨[], .done (by simp [hrest]) (by rw [hrest]; rfl), rfl⟩
  | case2 fuel c hrest => exact ⟨[], .done (by simp [hrest]) (by rw [hrest]; rfl), rfl⟩
  | case3 fuel c ch cs hrest hblank ih =>
    obtain ⟨spans, hgap, hcomments⟩ := ih (by simp [Cursor.next_rest, hrest] at h ⊢; omega)
    exact ⟨spans, .blank (by rw [hrest]; rfl) hblank hgap, hcomments⟩
  | case4 fuel c ch cs hrest hblank hnone =>
    refine ⟨[], .done (fun ch' hch' => ?_) (hrest ▸ hnone), rfl⟩
    rw [hrest, List.head?_cons, Option.some.injEq] at hch'
    exact hch' ▸ Bool.eq_false_iff.mpr hblank
  | case5 fuel c ch cs hrest hblank n hn behind comments last hskip ih =>
    have hpos := commentLength?_pos hn
    obtain ⟨spans, hgap, hcomments⟩ := ih (by
      simp only [behind, Cursor.advance_rest, List.length_drop]
      omega)
    rw [hskip] at hgap hcomments
    refine ⟨⟨.comment, c, behind⟩ :: spans, .comment (hrest ▸ hn) hgap, ?_⟩
    rw [List.map_cons, ← hcomments]
    rfl

theorem Gap.map_piece {pastLines : Bool} {c d : Cursor} {spans : List Span} {α : Type}
    {value : Cursor → Cursor → α} (h : Gap pastLines c spans d) :
    spans.map (Span.piece value) = (spans.map Span.comment).map Piece.comment := by
  induction h with
  | done => rfl
  | blank _ _ _ ih => exact ih
  | comment _ _ ih =>
    rw [List.map_cons, ih]
    rfl

theorem exists_gap {pastLines : Bool} {c d : Cursor} {comments : List Comment} {α : Type}
    (value : Cursor → Cursor → α) (hc : c.Counted)
    (hskip : skipFrom pastLines c.left c = (comments, d)) :
    ∃ spans, Gap pastLines c spans d ∧
      comments.map Piece.comment = spans.map (Span.piece value) := by
  have hfuel : c.rest.length ≤ c.left := Nat.le_of_eq hc.symm
  obtain ⟨spans, hgap, hcomments⟩ := gap_skipFrom hfuel
  rw [hskip] at hgap hcomments
  exact ⟨spans, hgap, by rw [hgap.map_piece, ← hcomments]⟩

theorem map_piece_terminatorSpans {α : Type} (value : Cursor → Cursor → α) (c : Cursor) :
    (terminatorSpans c).map (Span.piece value) = terminatorPieces c := by
  rw [terminatorSpans, terminatorPieces]
  split <;> rfl

/-- The pieces are those of a list of items that begins at a cursor and ends where it may. -/
def LaidOut {α : Type} (fuel : Nat) (form : Form) (value : Cursor → Cursor → α)
    (closes : Cursor → Prop) (c : Cursor) (pieces : List (Piece α)) : Prop :=
  ∃ spans d, Layout fuel form c spans d ∧ closes d ∧ pieces = spans.map (Span.piece value)

section LaidOut

variable {α : Type} {fuel : Nat} {form : Form} {value : Cursor → Cursor → α}
  {closes : Cursor → Prop} {c stop : Cursor}

theorem laidOut_gap {comments : List Comment} {d : Cursor} (hc : c.Counted)
    (hskip : skipFrom true c.left c = (comments, d)) (hclose : closes d) :
    LaidOut fuel form value closes c (comments.map .comment) := by
  obtain ⟨spans, hgap, hpieces⟩ := exists_gap value hc hskip
  exact ⟨spans, d, .gap hgap, hclose, hpieces⟩

/-- The gaps around an item that is read behind a cursor, and what they and the item are read as. -/
theorem exists_gaps (value : Cursor → Cursor → α) {start next : Cursor}
    {commentsBefore commentsBehind : List Comment} (hc : c.Counted)
    (hskip : skipFrom true c.left c = (commentsBefore, start))
    (hstop : stop ∈ form.ends fuel start)
    (hskipBehind : skipFrom false stop.left stop = (commentsBehind, next)) :
    ∃ before behind, Gap true c before start ∧ Gap false stop behind next ∧ next.Counted ∧
      commentsBefore.map .comment ++ .item start.row stop.row (value start stop) ::
          commentsBehind.map .comment =
        (before ++ ⟨.item, start, stop⟩ :: behind).map (Span.piece value) := by
  have hstart := Cursor.reaches_skipFrom true c.left c
  have hnext := Cursor.reaches_skipFrom false stop.left stop
  rw [hskip] at hstart
  rw [hskipBehind] at hnext
  have hstopCounted := (hstart.trans (Form.reaches_of_mem_ends hstop)).counted hc
  obtain ⟨before, hbefore, hbeforePieces⟩ := exists_gap value hc hskip
  obtain ⟨behind, hbehind, hbehindPieces⟩ := exists_gap value hstopCounted hskipBehind
  refine ⟨before, behind, hbefore, hbehind, hnext.counted hstopCounted, ?_⟩
  rw [hbeforePieces, hbehindPieces, List.map_append, List.map_cons]
  rfl

theorem laidOut_item {before behind : List Span} {start next : Cursor} {pieces : List (Piece α)}
    {further : Option (List (Piece α))} (hbefore : Gap true c before start)
    (hstop : stop ∈ form.ends fuel start) (hbehind : Gap false stop behind next)
    (hend : EndsItem next)
    (hfurther : ∀ rest, further = some rest → LaidOut fuel form value closes next.next rest)
    (h : further.map (fun rest =>
      (before ++ ⟨.item, start, stop⟩ :: behind).map (Span.piece value) ++
        terminatorPieces next ++ rest) = some pieces) :
    LaidOut fuel form value closes c pieces := by
  obtain ⟨rest, hrest, rfl⟩ := Option.map_eq_some_iff.mp h
  obtain ⟨spans, d, hlayout, hclose, rfl⟩ := hfurther rest hrest
  refine ⟨_, d, .item hbefore hstop hbehind hend hlayout, hclose, ?_⟩
  simp only [List.map_append, map_piece_terminatorSpans]

end LaidOut

theorem laidOut_of_memberPieces {fuel : Nat} {form : Form} {α : Type}
    {member : Cursor → Cursor → α} {count : Nat} {c : Cursor} {pieces : List (Piece α)}
    (hc : c.Counted) (h : memberPieces fuel form member count c = some pieces) :
    LaidOut fuel form member (·.rest.head? = some '\x7d') c pieces := by
  induction count generalizing c pieces with
  | zero => cases h
  | succ count ih =>
    rw [memberPieces] at h
    rcases hskip : skipFrom true c.left c with ⟨commentsBefore, start⟩
    simp only [hskip] at h
    split at h
    · next cs hclose =>
      cases h
      exact laidOut_gap hc hskip (congrArg List.head? hclose)
    obtain ⟨stop, hstop, h⟩ := List.exists_of_findSome?_eq_some h
    rcases hskipBehind : skipFrom false stop.left stop with ⟨commentsBehind, next⟩
    obtain ⟨before, behind, hbefore, hbehind, hnext, hpieces⟩ :=
      exists_gaps member hc hskip hstop hskipBehind
    simp only [hskipBehind, hpieces] at h
    split at h
    · next cs hclose =>
      cases h
      exact ⟨_, next, .last hbefore hstop hbehind, congrArg List.head? hclose, rfl⟩
    iterate 3
      · next cs hend =>
        have hends : EndsItem next := ⟨_, cs, hend, by simp⟩
        exact laidOut_item hbefore hstop hbehind hends (fun _ => ih hnext.next) h
    · cases h

theorem laidOut_of_topPieces {fuel count : Nat} {α : Type} {value : Cursor → Cursor → α}
    {c : Cursor} {pieces : List (Piece α)} (hc : c.Counted)
    (h : topPieces fuel value count c = some pieces) :
    LaidOut fuel (Form.alt topDeclaration topStatement) value (·.rest = []) c pieces := by
  induction count generalizing c pieces with
  | zero => cases h
  | succ count ih =>
    rw [topPieces] at h
    rcases hskip : skipFrom true c.left c with ⟨commentsBefore, start⟩
    simp only [hskip] at h
    split at h
    · next hclose =>
      cases h
      exact laidOut_gap hc hskip (List.isEmpty_iff.mp hclose)
    obtain ⟨stop, hstop, h⟩ := List.exists_of_findSome?_eq_some h
    rcases hskipBehind : skipFrom false stop.left stop with ⟨commentsBehind, next⟩
    obtain ⟨before, behind, hbefore, hbehind, hnext, hpieces⟩ :=
      exists_gaps value hc hskip hstop hskipBehind
    simp only [hskipBehind, hpieces] at h
    split at h
    · next hclose =>
      split at h
      · cases h
        exact ⟨_, next, .last hbefore hstop hbehind, hclose, rfl⟩
      · cases h
    iterate 3
      · next cs hend =>
        have hends : EndsItem next := ⟨_, cs, hend, by simp⟩
        exact laidOut_item hbefore hstop hbehind hends (fun _ => ih hnext.next) h
    · cases h

/-! ## Order and rows -/

def endOf (c : Cursor) (spans : List Span) : Cursor :=
  spans.foldl (fun _ s => s.stop) c

/-- The spans follow one another in the source from a cursor on. A mark stands on the row where what
is before it ends. -/
def Ordered : Cursor → List Span → Prop
  | _, [] => True
  | c, s :: spans =>
    c.Reaches s.start ∧ s.start.Reaches s.stop ∧
      (s.kind = .mark → s.start.row = c.row ∧ s.stop.row = c.row) ∧ Ordered s.stop spans

theorem ordered_append {c : Cursor} {spans further : List Span} :
    Ordered c (spans ++ further) ↔ Ordered c spans ∧ Ordered (endOf c spans) further := by
  induction spans generalizing c with
  | nil => simp [Ordered, endOf]
  | cons s spans ih =>
    rw [List.cons_append, Ordered, Ordered, ih]
    simp only [endOf, List.foldl_cons, and_assoc]

theorem endOf_append (c : Cursor) (spans further : List Span) :
    endOf c (spans ++ further) = endOf (endOf c spans) further :=
  List.foldl_append

theorem Ordered.of_reaches {c d : Cursor} {spans : List Span} (h : Ordered d spans)
    (hcd : c.Reaches d) (hmark : ∀ s, spans.head? = some s → s.kind ≠ .mark) : Ordered c spans := by
  cases spans with
  | nil => trivial
  | cons s spans =>
    obtain ⟨hstart, hstop, -, hrest⟩ := h
    exact ⟨hcd.trans hstart, hstop, fun hs => absurd hs (hmark s rfl), hrest⟩

theorem Ordered.reaches {c : Cursor} {spans : List Span} (h : Ordered c spans) :
    c.Reaches (endOf c spans) := by
  induction spans generalizing c with
  | nil => exact .refl c
  | cons s spans ih =>
    obtain ⟨hstart, hstop, -, hrest⟩ := h
    exact (hstart.trans hstop).trans (ih hrest)

theorem Ordered.row_le_of_mem {c : Cursor} {spans : List Span} (h : Ordered c spans) :
    ∀ s ∈ spans, s.stop.row ≤ (endOf c spans).row := by
  intro s hs
  obtain ⟨front, further, rfl⟩ := List.append_of_mem hs
  obtain ⟨-, -, -, hfurther⟩ := (ordered_append.mp h).2
  have hlast := hfurther.reaches.row_le
  rwa [endOf_append]

theorem Ordered.row_of_marks {c : Cursor} {marks : List Span} (h : Ordered c marks)
    (hmarks : ∀ m ∈ marks, m.kind = .mark) :
    (endOf c marks).row = c.row ∧ ∀ m ∈ marks, m.stop.row = c.row := by
  induction marks generalizing c with
  | nil => exact ⟨rfl, fun m hm => absurd hm List.not_mem_nil⟩
  | cons m marks ih =>
    obtain ⟨-, -, hrow, hrest⟩ := h
    obtain ⟨-, hstop⟩ := hrow (hmarks m List.mem_cons_self)
    obtain ⟨hlast, hall⟩ := ih hrest fun m' hm' => hmarks m' (List.mem_cons_of_mem m hm')
    refine ⟨hlast.trans hstop, fun m' hm' => ?_⟩
    rcases List.mem_cons.mp hm' with rfl | hm'
    · exact hstop
    · exact (hall m' hm').trans hstop

theorem Gap.kind_eq {pastLines : Bool} {c d : Cursor} {spans : List Span}
    (h : Gap pastLines c spans d) : ∀ s ∈ spans, s.kind = .comment := by
  induction h with
  | done => exact fun s hs => absurd hs List.not_mem_nil
  | blank _ _ _ ih => exact ih
  | comment _ _ ih => exact List.forall_mem_cons.mpr ⟨rfl, ih⟩

theorem Gap.head_ne_mark {pastLines : Bool} {c d : Cursor} {spans : List Span}
    (h : Gap pastLines c spans d) : ∀ s, spans.head? = some s → s.kind ≠ .mark := by
  intro s hs
  rw [h.kind_eq s (List.mem_of_head? hs)]
  exact SpanKind.noConfusion

theorem endOf_reaches_of_reaches {c d e : Cursor} {spans : List Span} (hcd : c.Reaches d)
    (h : (endOf d spans).Reaches e) : (endOf c spans).Reaches e := by
  cases spans with
  | nil => exact hcd.trans h
  | cons s spans => exact h

theorem Gap.ordered {pastLines : Bool} {c d : Cursor} {spans : List Span}
    (h : Gap pastLines c spans d) : Ordered c spans ∧ (endOf c spans).Reaches d := by
  induction h with
  | done => exact ⟨trivial, .refl _⟩
  | @blank c _ _ _ _ _ hrest ih =>
    have hnext := Cursor.reaches_next c
    exact ⟨ih.1.of_reaches hnext hrest.head_ne_mark, endOf_reaches_of_reaches hnext ih.2⟩
  | @comment c n _ _ _ _ ih =>
    exact ⟨⟨.refl c, Cursor.reaches_advance c n, SpanKind.noConfusion, ih.1⟩, ih.2⟩

theorem Gap.endOf_row {c d : Cursor} {spans : List Span} (h : Gap false c spans d) :
    (endOf c spans).row = d.row := by
  induction h with
  | done => rfl
  | @blank c ch spans d hch hblank _ ih =>
    have hline : c.rest.head? ≠ some '\n' := by
      rw [hch]
      rintro ⟨⟩
      exact absurd hblank (by decide)
    cases spans with
    | nil => exact (Cursor.next_row hline).symm.trans ih
    | cons s spans => exact ih
  | comment _ _ ih => exact ih

theorem ordered_terminatorSpans {c next : Cursor} (h : c.Reaches next) (hrow : c.row = next.row) :
    Ordered c (terminatorSpans next) ∧ (endOf c (terminatorSpans next)).Reaches next.next := by
  rw [terminatorSpans]
  split
  · exact ⟨trivial, h.trans (Cursor.reaches_next next)⟩
  · next hline =>
    have hnext := Cursor.next_row (c := next) (by simpa using hline)
    exact ⟨⟨h, Cursor.reaches_next next, fun _ => ⟨hrow.symm, hnext.trans hrow.symm⟩, trivial⟩,
      .refl _⟩

variable {fuel : Nat} {form : Form}

theorem Layout.head_ne_mark {c d : Cursor} {spans : List Span} (h : Layout fuel form c spans d) :
    ∀ s, spans.head? = some s → s.kind ≠ .mark := by
  have item {before rest : List Span} {start stop : Cursor} (hbefore : Gap true c before start) :
      ∀ s, (before ++ ⟨.item, start, stop⟩ :: rest).head? = some s → s.kind ≠ .mark := by
    intro s hs
    cases before with
    | nil =>
      cases hs
      exact SpanKind.noConfusion
    | cons b before => exact hbefore.head_ne_mark s hs
  cases h with
  | gap hgap => exact hgap.head_ne_mark
  | last hbefore => exact item hbefore
  | item hbefore =>
    simp only [List.append_assoc, List.cons_append]
    exact item hbefore

theorem ordered_item {c start stop d : Cursor} {before behind : List Span}
    (hbefore : Gap true c before start) (hstop : stop ∈ form.ends fuel start)
    (hbehind : Gap false stop behind d) :
    Ordered c (before ++ ⟨.item, start, stop⟩ :: behind) ∧
      (endOf c (before ++ ⟨.item, start, stop⟩ :: behind)).Reaches d ∧
      (endOf c (before ++ ⟨.item, start, stop⟩ :: behind)).row = d.row := by
  obtain ⟨hordered, hreaches⟩ := hbefore.ordered
  obtain ⟨horderedBehind, hreachesBehind⟩ := hbehind.ordered
  rw [ordered_append, endOf_append]
  exact ⟨⟨hordered, hreaches, Form.reaches_of_mem_ends hstop, SpanKind.noConfusion,
    horderedBehind⟩, hreachesBehind, hbehind.endOf_row⟩

theorem Layout.ordered {c d : Cursor} {spans : List Span} (h : Layout fuel form c spans d) :
    Ordered c spans ∧ (endOf c spans).Reaches d := by
  induction h with
  | gap hgap => exact hgap.ordered
  | last hbefore hstop hbehind =>
    obtain ⟨hordered, hreaches, -⟩ := ordered_item hbefore hstop hbehind
    exact ⟨hordered, hreaches⟩
  | item hbefore hstop hbehind _ hrest ih =>
    obtain ⟨hordered, hreaches, hrow⟩ := ordered_item hbefore hstop hbehind
    obtain ⟨hmark, hmarkReaches⟩ := ordered_terminatorSpans hreaches hrow
    rw [← endOf_append] at hmarkReaches
    have hhere := ordered_append.mpr ⟨hordered, hmark⟩
    refine ⟨ordered_append.mpr ⟨hhere, ih.1.of_reaches hmarkReaches hrest.head_ne_mark⟩, ?_⟩
    rw [endOf_append]
    exact endOf_reaches_of_reaches hmarkReaches ih.2

end SourceBundle.Go
