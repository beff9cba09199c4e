import SourceBundle.Proofs.ItemCandidates

/-!
# Bodies of functions and methods

A body is the block at the end of the first candidate that ends where the item ends, and no two blocks
begin at one place. The way through a source leads to its first body.
-/

namespace SourceBundle.Go

/-! ## Blocks -/

/-- Where the body of the function or method between two cursors begins and ends; none, if it has no
body or something else stands there. -/
def bodySpan? (fuel : Nat) (c stop : Cursor) : Option (Cursor × Cursor) :=
  match (readingTo fuel functionParts c stop).or (readingTo fuel methodParts c stop) with
  | some [_, _, _, _, d, e] => if d.left == e.left then none else some (d.skipInLine, e)
  | _ => none

section Blocks

variable {fuel fuel' : Nat} {c d e stop : Cursor}

theorem candidateTo_of_bodySpan? {b : Cursor} (h : bodySpan? fuel c stop = some (b, e)) :
    ∃ kind ds d, kind ≠ .other ∧ candidateTo fuel c stop = some (kind, ds ++ [d, e]) ∧
      d.left ≠ e.left ∧ b = d.skipInLine := by
  rw [bodySpan?] at h
  split at h
  · next x₁ x₂ x₃ x₄ d' e' hreading =>
    split at h
    · cases h
    · next hleft =>
      cases h
      have hne : d'.left ≠ e.left := by simpa using hleft
      rcases Option.or_eq_some_iff.mp hreading with hfunction | ⟨hnone, hmethod⟩
      · refine ⟨.function, [x₁, x₂, x₃, x₄], d', by decide, ?_, hne, rfl⟩
        rw [candidateTo_eq, hfunction]
        rfl
      · refine ⟨.method, [x₁, x₂, x₃, x₄], d', by decide, ?_, hne, rfl⟩
        rw [candidateTo_eq, hnone, hmethod]
        rfl
  · cases h

theorem exists_of_mem_block (h : d ∈ (Form.phrase .block).ends fuel c) :
    ∃ fuel' p, c.skip.rest.head? = some '\x7b' ∧
      p ∈ (Form.optional (.phrase (.statements .blockStatement))).ends fuel' c.skip.next ∧
      p.skip.rest.head? = some '\x7d' ∧ d = p.skip.next := by
  cases fuel with
  | zero => cases h
  | succ fuel =>
    obtain ⟨_, b, hb, hrest⟩ := Form.exists_of_mem_ends_seq h
    obtain ⟨fuel', p, hp, hd⟩ := Form.exists_of_mem_ends_seq hrest
    obtain ⟨hopen, rfl⟩ := Form.exists_of_mem_punctuation rfl hb
    obtain ⟨hclose, rfl⟩ := Form.exists_of_mem_punctuation rfl hd
    exact ⟨fuel', p, hopen, hp, hclose, rfl⟩

theorem block_end_unique (hc : c.Counted) (hd : d ∈ (Form.phrase .block).ends fuel c)
    (he : e ∈ (Form.phrase .block).ends fuel' c) : d = e := by
  obtain ⟨_, p, hopen, hp, hclose, rfl⟩ := exists_of_mem_block hd
  obtain ⟨_, p', -, hp', hclose', rfl⟩ := exists_of_mem_block he
  have hinside : c.skip.next.Counted :=
    ((Cursor.reaches_skip c).trans (Cursor.reaches_next _)).counted hc
  have hlevel : (Form.optional (.phrase (.statements .blockStatement))).level 0 = some 0 := rfl
  have hpath : Path 0 c.skip.next 0 p.skip :=
    (Form.path_of_mem_ends hinside hlevel hp).trans (.skipFrom true _ _)
  have hpath' : Path 0 c.skip.next 0 p'.skip :=
    (Form.path_of_mem_ends hinside hlevel hp').trans (.skipFrom true _ _)
  have hstays {q q' : Cursor} (hq : q.rest.head? = some '\x7d') (h : Path 0 q 0 q') : q = q' := by
    cases h with
    | refl => rfl
    | step hch hopened _ =>
      obtain rfl := Option.some.inj (hq.symm.trans hch)
      cases hopened
  rcases hpath.compare hpath' with h | h
  · rw [hstays hclose h]
  · rw [hstays hclose' h]

theorem skip_skipInLine (hc : c.Counted) (hline : c.skipInLine.rest.head? ≠ some '\n') :
    c.skipInLine.skip = c.skipInLine := by
  have hfuel : c.rest.length ≤ c.left := Nat.le_of_eq hc.symm
  obtain ⟨spans, hgap, -⟩ : ∃ spans, Gap false c spans c.skipInLine ∧ _ := gap_skipFrom hfuel
  cases hrest : c.skipInLine.rest with
  | nil =>
    have hstay : skipFrom true c.skipInLine.left c.skipInLine = ([], c.skipInLine) :=
      Setting.skipFrom_nil true _ hrest
    show (skipFrom true c.skipInLine.left c.skipInLine).2 = _
    rw [hstay]
  | cons ch cs =>
    have hblank : isGapBlank true ch = false := by
      have hinLine := hgap.blank_eq_false ch (by rw [hrest]; rfl)
      have hne : ch ≠ '\n' := by
        rintro rfl
        exact hline (by rw [hrest]; rfl)
      simpa [isGapBlank, hne] using hinLine
    have hstay : skipFrom true c.skipInLine.left c.skipInLine = ([], c.skipInLine) :=
      Setting.skipFrom_stop hrest hblank hgap.commentLength?_eq_none _
    show (skipFrom true c.skipInLine.left c.skipInLine).2 = _
    rw [hstay]

theorem block_of_mem_final {kind : ItemKind} (hkind : kind ≠ .other) (hd : d.Counted)
    (hfuel : 64 * d.left + 202 ≤ fuel) (he : e ∈ kind.final.ends fuel d) (hne : d.left ≠ e.left) :
    e ∈ (Form.phrase .block).ends fuel d.skipInLine ∧
      d.skipInLine.rest.head? = some '\x7b' := by
  have hreach := Cursor.reaches_skipInLine d
  have hle := hreach.left_le hd
  have hfinal : kind.final = Form.optional (.sameLine (.phrase .block)) := by
    cases kind with
    | other => exact absurd rfl hkind
    | _ => rfl
  rw [hfinal] at he
  obtain ⟨depth, rfl⟩ := Nat.exists_eq_add_of_le' (show 2 ≤ fuel by omega)
  rcases Cursor.mem_union he with hblock | hempty
  · rw [Setting.ends_sameLine] at hblock
    split at hblock
    · cases hblock
    · next hline =>
      have hsame : (Form.phrase .block).ends depth d.skipInLine =
          (Form.phrase .block).ends (depth + 2) d.skipInLine :=
        Form.ends_fuel (hreach.counted hd) (show _ = true from rfl) (show _ + 200 ≤ _ by omega)
          (by omega)
      rw [hsame] at hblock
      obtain ⟨_, p, hopen, -⟩ := exists_of_mem_block hblock
      rw [skip_skipInLine hd hline] at hopen
      exact ⟨hblock, hopen⟩
  · exact absurd (congrArg Cursor.left (List.mem_singleton.mp hempty)).symm hne

end Blocks

/-! ## The bodies of a source -/

def Piece.body? (fuel : Nat) : Piece (Cursor × Cursor) → Option (Cursor × Cursor)
  | .item _ _ span => bodySpan? fuel span.1 span.2
  | _ => none

def bodySpans (fuel : Nat) (pieces : List (Piece (Cursor × Cursor))) : List (Cursor × Cursor) :=
  pieces.filterMap (Piece.body? fuel)

/-- What lies ahead in a source with these bodies: a way to the first of them, behind which the source
is read on to the others, or a way to the end. -/
def Ahead (fuel : Nat) (c : Cursor) : List (Cursor × Cursor) → Prop
  | [] => ∃ e, Path 0 c 0 e ∧ e.rest = []
  | (d, e) :: bodies =>
    Path 0 c 0 d ∧ d.rest.head? = some '\x7b' ∧ e ∈ (Form.phrase .block).ends fuel d ∧
      ∃ behind, Behind fuel e behind ∧ bodySpans fuel behind = bodies

section Bodies

variable {fuel : Nat} {c d e start stop : Cursor} {bodies : List (Cursor × Cursor)}
  {pieces behind : List (Piece (Cursor × Cursor))}

theorem bodySpans_append (before behind : List (Piece (Cursor × Cursor))) :
    bodySpans fuel (before ++ behind) = bodySpans fuel before ++ bodySpans fuel behind :=
  List.filterMap_append

theorem bodySpans_comments (comments : List Comment) :
    bodySpans fuel (comments.map Piece.comment) = [] := by
  rw [bodySpans, List.filterMap_map, List.filterMap_eq_nil_iff]
  exact fun _ _ => rfl

theorem bodySpans_more (comments : List Comment) (c : Cursor)
    (rest : List (Piece (Cursor × Cursor))) :
    bodySpans fuel (comments.map .comment ++ terminatorPieces c ++ rest) = bodySpans fuel rest := by
  have hterminator : bodySpans fuel (terminatorPieces c) = [] := by
    rw [terminatorPieces]
    split <;> rfl
  rw [bodySpans_append, bodySpans_append, bodySpans_comments, hterminator]
  rfl

theorem bodySpans_item (comments : List Comment) (startRow endRow : Nat)
    (behind : List (Piece (Cursor × Cursor))) :
    bodySpans fuel (comments.map .comment ++ .item startRow endRow (start, stop) :: behind) =
      (bodySpan? fuel start stop).toList ++ bodySpans fuel behind := by
  rw [bodySpans_append, bodySpans_comments, List.nil_append, bodySpans, List.filterMap_cons,
    Piece.body?]
  cases bodySpan? fuel start stop <;> rfl

theorem Ahead.of_path (hpath : Path 0 c 0 d) (h : Ahead fuel d bodies) : Ahead fuel c bodies := by
  cases bodies with
  | nil =>
    obtain ⟨e, hend, hnil⟩ := h
    exact ⟨e, hpath.trans hend, hnil⟩
  | cons body bodies =>
    obtain ⟨hbody, hfurther⟩ := h
    exact ⟨hpath.trans hbody, hfurther⟩

/-- The body of an item stands at its end, and the way to the body closes the brackets that it
opens. -/
theorem body_of_item (hc : c.Counted) (hfuel : 64 * c.left + 256 ≤ fuel)
    (hstop : stop ∈ topItem.ends fuel c) (hbody : bodySpan? fuel c stop = some (d, e)) :
    e = stop ∧ Path 0 c 0 d ∧ d.rest.head? = some '\x7b' ∧
      e ∈ (Form.phrase .block).ends fuel d := by
  obtain ⟨kind, ds, h, hkind, hcandidate, hne, rfl⟩ := candidateTo_of_bodySpan? hbody
  obtain ⟨kind', hkind', hmem⟩ := List.mem_flatMap.mp (List.mem_of_find?_eq_some hcandidate)
  obtain ⟨es, hes, heq⟩ := List.mem_map.mp hmem
  cases heq
  have hleft := List.find?_some hcandidate
  have hreading : (ds ++ [h]) ++ [e] ∈ readings fuel (kind.head ++ [kind.final]) c := by
    rwa [List.append_assoc]
  obtain ⟨hhead, hfinal⟩ := mem_readings_append_singleton hreading
  have hlast : (ds ++ [h]).getLastD c = h := by simp
  have hpath := path_of_mem_readings hc kind.fit_head hhead
  rw [hlast] at hfinal hpath
  have hh := hpath.reaches.counted hc
  have hle := hpath.reaches.left_le hc
  obtain ⟨hblock, hbrace⟩ := block_of_mem_final hkind hh (by omega) hfinal hne
  have he : e = stop := by
    refine Cursor.Reaches.eq_of_left_eq hc
      (hpath.reaches.trans (Form.reaches_of_mem_ends hfinal)) (Form.reaches_of_mem_ends hstop) ?_
    simpa using hleft
  exact ⟨he, hpath.trans (.skipFrom false _ _), hbrace, hblock⟩

mutual

/-- A well-formed source has its bodies ahead. -/
theorem Parsed.ahead {fuel : Nat} {c : Cursor} {pieces : List (Piece (Cursor × Cursor))}
    (hc : c.Counted) (hfuel : 64 * c.left + 256 ≤ fuel) :
    Parsed fuel c pieces → Ahead fuel c (bodySpans fuel pieces)
  | .done hend => by
    rw [bodySpans_comments]
    exact ⟨c.skip, .skipFrom true _ _, hend⟩
  | .item hstart hstop hbehind => by
    have hmem := List.mem_of_find?_eq_some hstop
    have hskip := Cursor.reaches_skip c
    have hstart := hskip.counted hc
    have hreach := Form.reaches_of_mem_ends hmem
    have hstartLeft := hskip.left_le hc
    have hstopLeft := hreach.left_le hstart
    have hahead := hbehind.ahead (hreach.counted hstart) (by omega)
    have hgap : Path 0 c 0 c.skip := .skipFrom true _ _
    refine .of_path hgap ?_
    rw [bodySpans_item]
    cases hspan : bodySpan? fuel c.skip _ with
    | some body =>
      obtain ⟨rfl, hpath, hbrace, hblock⟩ := body_of_item hstart (by omega) hmem hspan
      exact ⟨hpath, hbrace, hblock, _, hbehind, rfl⟩
    | none =>
      exact hahead.of_path (Form.path_of_mem_ends hstart (show topItem.level 0 = some 0 from rfl) hmem)

theorem Behind.ahead {fuel : Nat} {c : Cursor} {pieces : List (Piece (Cursor × Cursor))}
    (hc : c.Counted) (hfuel : 64 * c.left + 256 ≤ fuel) :
    Behind fuel c pieces → Ahead fuel c (bodySpans fuel pieces)
  | .done hend => by
    rw [bodySpans_comments]
    exact ⟨c.skipInLine, .skipFrom false _ _, hend⟩
  | .more hends hrest => by
    have hline : Path 0 c 0 c.skipInLine := .skipFrom false _ _
    have hnext : Path 0 c 0 c.skipInLine.next := hline.trans (.of_endsItem hends)
    rw [bodySpans_more]
    have hle := hnext.reaches.left_le hc
    exact (hrest.ahead (hnext.reaches.counted hc) (by omega)).of_path hnext

end

end Bodies

end SourceBundle.Go
