import SourceBundle.Proofs.SegmentParts

/-!
# How the top level is read

At the top level, each item is the first of the readings there behind which the source goes on as it
should. What is read does not depend on the bound on the number of items, and the values of the items
are computed apart from where they stand.
-/

namespace SourceBundle.Go

def topItem : Form := .alt topDeclaration topStatement

def topRest {α : Type} (fuel : Nat) (value : Cursor → Cursor → α) (count : Nat)
    (before : List Comment) (start stop : Cursor) : Option (List (Piece α)) :=
  let here := itemPieces value before start stop
  if stop.skipInLine.rest = [] then if closedByEnd fuel start stop then some here else none
  else if endsItem stop.skipInLine then
    (topPieces fuel value count stop.skipInLine.next).map fun rest =>
      here ++ terminatorPieces stop.skipInLine ++ rest
  else none

def readable (fuel : Nat) (c : Cursor) : Bool :=
  (topPieces fuel Prod.mk (c.left + 1) c).isSome

def continues (fuel : Nat) (start stop : Cursor) : Bool :=
  if stop.skipInLine.rest = [] then closedByEnd fuel start stop
  else endsItem stop.skipInLine && readable fuel stop.skipInLine.next

mutual

/-- How the source is read from a cursor on: the spans of its items among its other pieces. -/
inductive Parsed (depth : Nat) : Cursor → List (Piece (Cursor × Cursor)) → Prop
  /-- No item is left. -/
  | done {c} (hend : c.skip.rest = []) : Parsed depth c ((skipFrom true c.left c).1.map .comment)
  | item {c stop behind} (hstart : c.skip.rest ≠ [])
      (hstop : (topItem.ends depth c.skip).find? (continues depth c.skip) = some stop)
      (hbehind : Behind depth stop behind) :
      Parsed depth c ((skipFrom true c.left c).1.map .comment ++
        .item c.skip.row stop.row (c.skip, stop) :: behind)

inductive Behind (depth : Nat) : Cursor → List (Piece (Cursor × Cursor)) → Prop
  /-- The end of the source closes the item. -/
  | done {c} (hend : c.skipInLine.rest = []) :
      Behind depth c ((skipFrom false c.left c).1.map .comment)
  | more {c rest} (hends : endsItem c.skipInLine = true)
      (hrest : Parsed depth c.skipInLine.next rest) :
      Behind depth c ((skipFrom false c.left c).1.map .comment ++
        terminatorPieces c.skipInLine ++ rest)

end

section

variable {α : Type} {fuel : Nat} {value : Cursor → Cursor → α} {count count' : Nat}
  {c start stop : Cursor}

theorem topPieces_succ (fuel : Nat) (value : Cursor → Cursor → α) (count : Nat) (c : Cursor) :
    topPieces fuel value (count + 1) c =
      if c.skip.rest = [] then some ((skipFrom true c.left c).1.map .comment)
      else (topItem.ends fuel c.skip).findSome?
        (topRest fuel value count (skipFrom true c.left c).1 c.skip) := by
  rw [topPieces, Cursor.skip]
  rcases skipFrom true c.left c with ⟨before, start⟩
  simp only [List.isEmpty_iff]
  split
  · rfl
  · refine findSome?_congr fun stop _ => ?_
    rw [topRest, itemPieces, Cursor.skipInLine]
    split
    · next hnext => rw [hnext, if_pos rfl]
    iterate 3
      · next hnext =>
        have hends : endsItem (skipFrom false stop.left stop).2 = true := by
          rw [endsItem, hnext]
          rfl
        rw [if_neg (by rw [hnext]; simp), if_pos hends]
    · next hnil hline hsemicolon hnul =>
      rw [if_neg hnil, if_neg (not_endsItem hline hsemicolon hnul)]

theorem left_next_lt (hc : c.Counted) (hrest : c.rest ≠ []) : c.next.left < c.left :=
  Cursor.advance_left_lt hc hrest Nat.one_pos

theorem behind_item (hc : c.Counted) (hstop : stop ∈ topItem.ends fuel c.skip) :
    stop.skipInLine.Counted ∧ stop.skipInLine.left ≤ c.left := by
  have hstart := Cursor.reaches_skip c
  have hreach := (hstart.trans (Form.reaches_of_mem_ends hstop)).trans (Cursor.reaches_skipInLine stop)
  exact ⟨hreach.counted hc, hreach.left_le hc⟩

/-- The bound on the number of items is never met, if it is beyond the number of characters ahead. -/
theorem topPieces_count (hc : c.Counted) (h : c.left < count) (h' : c.left < count') :
    topPieces fuel value count c = topPieces fuel value count' c := by
  induction count generalizing c count' with
  | zero => omega
  | succ count ih =>
    obtain ⟨count', rfl⟩ := Nat.exists_eq_add_of_le' (Nat.succ_le_of_lt (Nat.zero_lt_of_lt h'))
    rw [topPieces_succ, topPieces_succ]
    split
    · rfl
    refine findSome?_congr fun stop hstop => ?_
    obtain ⟨hcounted, hle⟩ := behind_item hc hstop
    rw [topRest, topRest]
    split
    · rfl
    · next hrest =>
      have hlt := left_next_lt hcounted hrest
      have hsame : topPieces fuel value count stop.skipInLine.next =
          topPieces fuel value count' stop.skipInLine.next :=
        ih hcounted.next (by omega) (by omega)
      rw [hsame]

theorem topPieces_isSome (hc : c.Counted) (h : c.left < count) :
    (topPieces fuel Prod.mk count c).isSome = readable fuel c := by
  rw [readable, topPieces_count hc h (Nat.lt_succ_self _)]

theorem topRest_isSome (before : List Comment) (hc : c.Counted) (h : c.left ≤ count)
    (hstop : stop ∈ topItem.ends fuel c.skip) :
    (topRest fuel Prod.mk count before c.skip stop).isSome = continues fuel c.skip stop := by
  obtain ⟨hcounted, hle⟩ := behind_item hc hstop
  rw [topRest, continues]
  split
  · cases closedByEnd fuel c.skip stop <;> rfl
  · next hrest =>
    have hlt := left_next_lt hcounted hrest
    rw [← topPieces_isSome hcounted.next (show _ < count by omega)]
    cases endsItem stop.skipInLine <;> simp

theorem parsed_of_topPieces {pieces : List (Piece (Cursor × Cursor))} (hc : c.Counted)
    (hcount : c.left < count) (h : topPieces fuel Prod.mk count c = some pieces) :
    Parsed fuel c pieces := by
  induction count generalizing c pieces with
  | zero => omega
  | succ count ih =>
    rw [topPieces_succ] at h
    split at h
    · next hend =>
      cases h
      exact .done hend
    · next hstart =>
      obtain ⟨earlier, stop, later, hends, hstop, hearlier⟩ := List.findSome?_eq_some_iff.mp h
      have hmem {d : Cursor} (hd : d ∈ earlier ++ [stop]) : d ∈ topItem.ends fuel c.skip := by
        rw [hends]
        simp only [List.mem_append, List.mem_cons, List.not_mem_nil, or_false] at hd ⊢
        tauto
      have hcontinues {d : Cursor} (hd : d ∈ earlier ++ [stop]) :=
        topRest_isSome (skipFrom true c.left c).1 hc (Nat.le_of_lt_succ hcount) (hmem hd)
      have hchoice : (topItem.ends fuel c.skip).find? (continues fuel c.skip) = some stop := by
        refine List.find?_eq_some_iff_append.mpr ⟨?_, earlier, later, hends, fun d hd => ?_⟩
        · rw [← hcontinues (by simp), hstop]
          rfl
        · rw [← hcontinues (List.mem_append_left _ hd), hearlier d hd]
          rfl
      obtain ⟨hcounted, hle⟩ := behind_item hc (hmem (List.mem_append_right earlier List.mem_cons_self))
      rw [topRest] at hstop
      split at hstop
      · next hend =>
        split at hstop
        · cases hstop
          exact .item hstart hchoice (.done hend)
        · cases hstop
      · next hnonempty =>
        have hlt := left_next_lt hcounted hnonempty
        split at hstop
        · next hendsItem =>
          obtain ⟨rest, hrest, rfl⟩ := Option.map_eq_some_iff.mp hstop
          have hmore := Behind.more hendsItem (ih hcounted.next (by omega) hrest)
          have hitem := Parsed.item hstart hchoice hmore
          simpa only [itemPieces, List.append_assoc, List.cons_append] using hitem
        · cases hstop

theorem readable_of_continues (hc : c.Counted) (hstop : stop ∈ topItem.ends fuel c.skip)
    (h : continues fuel c.skip stop = true) : readable fuel c = true := by
  rw [readable, topPieces_succ]
  split
  · rfl
  · rw [List.findSome?_isSome_iff]
    exact ⟨stop, hstop, (topRest_isSome _ hc (Nat.le_refl _) hstop).trans h⟩

theorem continues_of_rest_nil (h : stop.skipInLine.rest = []) :
    continues fuel start stop = closedByEnd fuel start stop := by
  rw [continues, if_pos h]

theorem continues_of_endsItem (h : endsItem stop.skipInLine = true) :
    continues fuel start stop = readable fuel stop.skipInLine.next := by
  rw [continues, if_neg (rest_ne_nil_of_endsItem h), h, Bool.true_and]

theorem readable_of_rest_nil (h : c.skip.rest = []) : readable fuel c = true := by
  rw [readable, topPieces_succ, if_pos h]
  rfl

theorem Parsed.readable {pieces : List (Piece (Cursor × Cursor))} (hc : c.Counted)
    (h : Parsed fuel c pieces) : readable fuel c = true := by
  cases h with
  | done hend => exact readable_of_rest_nil hend
  | item hstart hstop hbehind =>
    have hcontinues : continues fuel c.skip _ = true := List.find?_some hstop
    exact readable_of_continues hc (List.mem_of_find?_eq_some hstop) hcontinues

/-! ## Values -/

def Piece.map {β : Type} (f : α → β) : Piece α → Piece β
  | .comment c => .comment c
  | .mark => .mark
  | .item startRow endRow value => .item startRow endRow (f value)

theorem map_terminatorPieces {β : Type} (f : α → β) (c : Cursor) :
    (terminatorPieces c).map (Piece.map f) = terminatorPieces c := by
  rw [terminatorPieces, terminatorPieces]
  split <;> rfl

theorem map_comments {β : Type} (f : α → β) (comments : List Comment) :
    (comments.map Piece.comment).map (Piece.map f) = comments.map Piece.comment := by
  rw [List.map_map]
  rfl

theorem map_topPieces (value : Cursor → Cursor → α) (count : Nat) (c : Cursor) :
    topPieces fuel value count c =
      (topPieces fuel Prod.mk count c).map fun pieces =>
        pieces.map (Piece.map fun span => value span.1 span.2) := by
  induction count generalizing c with
  | zero => rfl
  | succ count ih =>
    rw [topPieces_succ, topPieces_succ]
    split
    · rw [Option.map_some, map_comments]
    · rw [List.map_findSome?]
      refine findSome?_congr fun stop _ => ?_
      have hitem : itemPieces value (skipFrom true c.left c).1 c.skip stop =
          (itemPieces Prod.mk (skipFrom true c.left c).1 c.skip stop).map
            (Piece.map fun span => value span.1 span.2) := by
        simp only [itemPieces, List.map_append, List.map_cons, map_comments]
        rfl
      rw [Function.comp_apply, topRest, topRest, hitem]
      split
      · split <;> rfl
      · split
        · rw [ih, Option.map_map, Option.map_map]
          congr 1
          funext rest
          simp [map_terminatorPieces]
        · rfl

theorem commentsAbove_map {β : Type} (f : α → β) (row : Nat) (before : List (Piece α)) :
    commentsAbove row (before.map (Piece.map f)) = commentsAbove row before := by
  have htrails (c : Comment) (before : List (Piece α)) :
      trails c (before.map (Piece.map f)) = trails c before := by
    induction before with
    | nil => rfl
    | cons piece before ih =>
      cases piece with
      | mark => exact ih
      | _ => rfl
  induction before generalizing row with
  | nil => rfl
  | cons piece before ih =>
    cases piece with
    | comment c =>
      rw [List.map_cons, Piece.map, commentsAbove, commentsAbove, htrails, ih]
    | _ => rfl

theorem documentedFrom_map {β : Type} (f : α → β) (before pieces : List (Piece α)) :
    documentedFrom (before.map (Piece.map f)) (pieces.map (Piece.map f)) =
      (documentedFrom before pieces).map fun p => (f p.1, p.2) := by
  induction pieces generalizing before with
  | nil => rfl
  | cons piece pieces ih =>
    cases piece with
    | item startRow endRow value =>
      rw [List.map_cons, Piece.map, documentedFrom, documentedFrom, commentsAbove_map, List.map_cons,
        ← ih]
      rfl
    | comment c => exact ih (.comment c :: before)
    | mark => exact ih (.mark :: before)

end

end SourceBundle.Go
