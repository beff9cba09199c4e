import Mathlib.Data.List.Induction
import SourceBundle.GoSymbols
import SourceBundle.Proofs.GoLayout

/-!
# The comments that document an item

In a list of items, with or without a brace that opens it, a comment stands clear of the code on its
line where there is none in front of it, or where it follows the brace or another comment directly.
The comments that document an item are the longest run above it of comments that stand clear, each on
the line above what follows it.
-/

namespace SourceBundle.Go

/-- Something that is no comment ends on a row: the opening brace or an earlier part of the list. -/
def CodeOnRow (opening : Option Cursor) (before : List Span) (row : Nat) : Prop :=
  (∃ brace, opening = some brace ∧ brace.row = row) ∨
    ∃ s ∈ before, s.kind ≠ .comment ∧ s.stop.row = row

/-- Where code stands in front of a comment on its line, nothing stands between the comment and the
opening, or only marks stand between it and another comment that ends on its line. -/
def StandsClear (opening : Option Cursor) (before : List Span) (c : Span) : Prop :=
  CodeOnRow opening before c.start.row →
    before = [] ∨ ∃ front other marks, before = front ++ other :: marks ∧ other.kind = .comment ∧
      other.stop.row = c.start.row ∧ ∀ m ∈ marks, m.kind = .mark

/-- The comments that lead up to a row, in the order of the source: the longest run at the end of
what is before it. -/
inductive RunAbove (opening : Option Cursor) : List Span → Nat → List Span → Prop
  | nil {before row} (hend : ∀ front c, before = front ++ [c] → c.kind = .comment →
      c.stop.row + 1 = row → ¬StandsClear opening front c) : RunAbove opening before row []
  | comment {front c row run} (hkind : c.kind = .comment) (hrow : c.stop.row + 1 = row)
      (hclear : StandsClear opening front c) (hrun : RunAbove opening front c.start.row run) :
      RunAbove opening (front ++ [c]) row (run ++ [c])

/-! ## Comments that trail code -/

theorem exists_last_ne_mark {before : List Span}
    (hhead : ∀ s, before.head? = some s → s.kind ≠ .mark) :
    before = [] ∨ ∃ front last marks, before = front ++ last :: marks ∧ last.kind ≠ .mark ∧
      ∀ m ∈ marks, m.kind = .mark := by
  induction before using List.reverseRecOn with
  | nil => exact .inl rfl
  | append_singleton before s ih =>
    right
    by_cases hs : s.kind = .mark
    · rcases ih (fun a ha => hhead a (by rw [List.head?_append, ha]; rfl)) with
        rfl | ⟨front, last, marks, rfl, hlast, hmarks⟩
      · exact absurd hs (hhead s rfl)
      · refine ⟨front, last, marks ++ [s], by simp, hlast, fun m hm => ?_⟩
        rcases List.mem_append.mp hm with hm | hm
        · exact hmarks m hm
        · exact List.mem_singleton.mp hm ▸ hs
    · exact ⟨before, s, [], rfl, hs, fun m hm => absurd hm List.not_mem_nil⟩

section

variable {α : Type} {value : Cursor → Cursor → α} {opening : Option Cursor} {origin : Cursor}

theorem trails_marks (c : Comment) {marks : List Span} (pieces : List (Piece α))
    (hmarks : ∀ m ∈ marks, m.kind = .mark) :
    trails c (marks.map (Span.piece value) ++ pieces) = trails c pieces := by
  induction marks with
  | nil => rfl
  | cons m marks ih =>
    have hm : m.piece value = .mark := by rw [Span.piece, hmarks m List.mem_cons_self]
    rw [List.map_cons, List.cons_append, hm, trails]
    exact ih fun m' hm' => hmarks m' (List.mem_cons_of_mem m hm')

theorem trails_last (value : Cursor → Cursor → α) (c : Comment) (front : List Span)
    {marks : List Span} {last : Span} (hlast : last.kind ≠ .mark) (hmarks : ∀ m ∈ marks, m.kind = .mark) :
    trails c ((front ++ last :: marks).reverse.map (Span.piece value)) = true ↔
      last.kind = .item ∧ last.stop.row = c.startRow := by
  have hpieces : (front ++ last :: marks).reverse.map (Span.piece value) =
      marks.reverse.map (Span.piece value) ++
        last.piece value :: front.reverse.map (Span.piece value) := by simp
  rw [hpieces, trails_marks c _ fun m hm => hmarks m (List.mem_reverse.mp hm), Span.piece]
  cases hkind : last.kind with
  | comment => simp [trails]
  | mark => exact absurd hkind hlast
  | item => simp [trails]

theorem not_codeOnRow {front marks : List Span} {last : Span} {row : Nat}
    (hopening : ∀ brace, opening = some brace → brace.row ≤ origin.row)
    (hordered : Ordered origin (front ++ last :: marks))
    (hmarks : ∀ m ∈ marks, m.kind = .mark) (hrow : last.stop.row < row) :
    ¬CodeOnRow opening (front ++ last :: marks) row := by
  obtain ⟨hfront, hstart, hstop, -, hrest⟩ := ordered_append.mp hordered
  have hup : (endOf origin front).row ≤ last.stop.row := (hstart.trans hstop).row_le
  rintro (⟨brace, hbrace, hcode⟩ | ⟨s, hs, -, hcode⟩)
  · have hbelow := hopening brace hbrace
    have hfirst := hfront.reaches.row_le
    omega
  · rcases List.mem_append.mp hs with hs | hs
    · have habove := hfront.row_le_of_mem s hs
      omega
    rcases List.mem_cons.mp hs with rfl | hs
    · omega
    · have hmark := (hrest.row_of_marks hmarks).2 s hs
      omega

/-- A comment trails no other part exactly where it stands clear. -/
theorem trails_eq_false_iff (value : Cursor → Cursor → α) {before : List Span} {c : Span}
    (hopening : ∀ brace, opening = some brace → brace.row ≤ origin.row)
    (hordered : Ordered origin before)
    (hhead : ∀ s, before.head? = some s → s.kind ≠ .mark)
    (hstart : (endOf origin before).row ≤ c.start.row) :
    trails c.comment (before.reverse.map (Span.piece value)) = false ↔
      StandsClear opening before c := by
  rcases exists_last_ne_mark hhead with rfl | ⟨front, last, marks, rfl, hlast, hmarks⟩
  · exact ⟨fun _ _ => .inl rfl, fun _ => rfl⟩
  have htrails := trails_last value c.comment front hlast hmarks
  constructor
  · intro hfalse hcode
    obtain ⟨-, -, -, -, hrest⟩ := ordered_append.mp hordered
    have hle : last.stop.row ≤ c.start.row := by
      rw [endOf_append] at hstart
      exact Nat.le_trans hrest.reaches.row_le hstart
    have hrow : last.stop.row = c.start.row :=
      Nat.le_antisymm hle (Nat.le_of_not_lt fun hlt =>
        not_codeOnRow hopening hordered hmarks hlt hcode)
    refine .inr ⟨front, last, marks, rfl, ?_, hrow, hmarks⟩
    cases hkind : last.kind with
    | comment => rfl
    | mark => exact absurd hkind hlast
    | item => exact absurd (htrails.mpr ⟨hkind, hrow⟩) (Bool.eq_false_iff.mp hfalse)
  · intro hclear
    refine Bool.eq_false_iff.mpr fun htrue => ?_
    obtain ⟨hkind, hrow⟩ := htrails.mp htrue
    have hcode : CodeOnRow opening (front ++ last :: marks) c.start.row :=
      .inr ⟨last, by simp, by simp [hkind], hrow⟩
    rcases hclear hcode with hnil | ⟨front', other, marks', heq, hother, -, hmarks'⟩
    · exact absurd hnil (by simp)
    · rw [heq, trails_last value c.comment front' (by simp [hother]) hmarks', hother] at htrue
      exact SpanKind.noConfusion htrue.1

/-! ## Runs -/

theorem commentsAbove_piece (row : Nat) (s : Span) (above : List (Piece α)) :
    commentsAbove row (s.piece value :: above) =
      if s.kind = .comment ∧ s.stop.row + 1 = row ∧ trails s.comment above = false then
        s.comment :: commentsAbove s.start.row above
      else [] := by
  rw [Span.piece]
  cases s.kind with
  | comment => simp [commentsAbove, Span.comment]
  | mark => rfl
  | item => rfl

theorem exists_runAbove (value : Cursor → Cursor → α) {before : List Span} (row : Nat)
    (hopening : ∀ brace, opening = some brace → brace.row ≤ origin.row)
    (hordered : Ordered origin before)
    (hhead : ∀ s, before.head? = some s → s.kind ≠ .mark) :
    ∃ run, RunAbove opening before row run ∧
      commentsAbove row (before.reverse.map (Span.piece value)) =
        run.reverse.map Span.comment := by
  induction before using List.reverseRecOn generalizing row with
  | nil => exact ⟨[], .nil fun front c h => absurd h.symm (by simp), rfl⟩
  | append_singleton before s ih =>
    obtain ⟨hbefore, hstart, -⟩ := ordered_append.mp hordered
    have hheadBefore : ∀ a, before.head? = some a → a.kind ≠ .mark :=
      fun a ha => hhead a (by rw [List.head?_append, ha]; rfl)
    have hclears := trails_eq_false_iff value hopening hbefore hheadBefore hstart.row_le
    rw [List.reverse_append, List.reverse_singleton, List.singleton_append, List.map_cons,
      commentsAbove_piece]
    split
    · next hs =>
      obtain ⟨hkind, hrow, hclear⟩ := hs
      obtain ⟨run, hrun, hcomments⟩ := ih s.start.row hbefore hheadBefore
      refine ⟨run ++ [s], .comment hkind hrow (hclears.mp hclear) hrun, ?_⟩
      rw [hcomments, List.reverse_append]
      rfl
    · next hs =>
      refine ⟨[], .nil fun front c heq hkind hrow hclear => hs ?_, rfl⟩
      obtain ⟨rfl, hlast⟩ := List.append_inj' heq rfl
      obtain rfl := List.singleton_inj.mp hlast
      exact ⟨hkind, hrow, hclears.mpr hclear⟩

end

/-! ## Items with their documentation -/

/-- `emits start stop doc own`: the item between two cursors has its own symbols under a
documentation. The items of a list give the symbols in order, each documented by the run above it. -/
inductive DocumentedItems (opening : Option Cursor)
    (emits : Cursor → Cursor → Option String → List Symbol → Prop) :
    (before spans : List Span) → List Symbol → Prop
  | nil {before} : DocumentedItems opening emits before [] []
  | between {before s spans symbols} (hkind : s.kind ≠ .item)
      (hrest : DocumentedItems opening emits (before ++ [s]) spans symbols) :
      DocumentedItems opening emits before (s :: spans) symbols
  | item {before s spans run own symbols} (hkind : s.kind = .item)
      (hrun : RunAbove opening before s.start.row run)
      (hown : emits s.start s.stop (docText (run.reverse.map Span.comment)) own)
      (hrest : DocumentedItems opening emits (before ++ [s]) spans symbols) :
      DocumentedItems opening emits before (s :: spans) (own ++ symbols)

section

variable {α : Type} {value : Cursor → Cursor → α} {opening : Option Cursor} {origin : Cursor}
  {emits : Cursor → Cursor → Option String → List Symbol → Prop}
  {symbols : α → Option String → List Symbol}

theorem documentedItems_documentedFrom {before spans : List Span}
    (hopening : ∀ brace, opening = some brace → brace.row ≤ origin.row)
    (hordered : Ordered origin (before ++ spans))
    (hhead : ∀ s, (before ++ spans).head? = some s → s.kind ≠ .mark)
    (hemits : ∀ start stop doc, origin.Reaches start →
      emits start stop doc (symbols (value start stop) doc)) :
    DocumentedItems opening emits before spans
      ((documentedFrom (before.reverse.map (Span.piece value)) (spans.map (Span.piece value))).flatMap
        fun p => symbols p.1 p.2) := by
  induction spans generalizing before with
  | nil => exact .nil
  | cons s spans ih =>
    have hsplit : before ++ s :: spans = before ++ [s] ++ spans := by simp
    have hrest := ih (hsplit ▸ hordered) (hsplit ▸ hhead)
    rw [List.reverse_append, List.reverse_singleton, List.singleton_append, List.map_cons] at hrest
    obtain ⟨hbefore, hstart, -⟩ := ordered_append.mp hordered
    obtain ⟨kind, start, stop⟩ := s
    cases kind with
    | comment => exact .between SpanKind.noConfusion hrest
    | mark => exact .between SpanKind.noConfusion hrest
    | item =>
      have hheadBefore : ∀ a, before.head? = some a → a.kind ≠ .mark :=
        fun a ha => hhead a (by rw [List.head?_append, ha]; rfl)
      obtain ⟨run, hrun, hcomments⟩ :=
        exists_runAbove value start.row hopening hbefore hheadBefore
      have hown := hemits start stop (docText (run.reverse.map Span.comment))
        (hbefore.reaches.trans hstart)
      have hitem := DocumentedItems.item rfl hrun hown hrest
      rw [← hcomments] at hitem
      exact hitem

/-- A list of items that is read has symbols that are documented by the runs above its items. -/
theorem LaidOut.documentedItems {fuel : Nat} {form : Form} {closes : Cursor → Prop}
    {pieces : List (Piece α)} (h : LaidOut fuel form value closes origin pieces)
    (hopening : ∀ brace, opening = some brace → brace.row ≤ origin.row)
    (hemits : ∀ start stop doc, origin.Reaches start →
      emits start stop doc (symbols (value start stop) doc)) :
    ∃ spans d, Layout fuel form origin spans d ∧ closes d ∧
      DocumentedItems opening emits [] spans
        ((documented pieces).flatMap fun p => symbols p.1 p.2) := by
  obtain ⟨spans, d, hlayout, hclose, rfl⟩ := h
  have hitems : DocumentedItems opening emits [] spans _ :=
    documentedItems_documentedFrom hopening hlayout.ordered.1 hlayout.head_ne_mark hemits
  exact ⟨spans, d, hlayout, hclose, hitems⟩

end

end SourceBundle.Go
