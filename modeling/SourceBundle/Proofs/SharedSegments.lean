import SourceBundle.Proofs.SegmentChoices

/-!
# Segments that two sources share

Where a source is read on from a place of a segment, so is every other source in which the segment
stands before a body, or before the end if it does in the first one. Both take the same choices.
-/

namespace SourceBundle.Go

namespace Setting

/-- Two sources at one place of a segment. Either both have a body behind it or none has. -/
structure Shared (s s' : Setting) (depth fuel fuel' : Nat) (bodies bodies' : List (Cursor × Cursor))
    (c : Cursor) : Prop where
  first : s.Stands depth fuel bodies c
  second : s'.Stands depth fuel' bodies' c
  bodied : bodies.isEmpty = bodies'.isEmpty

variable {s s' : Setting} {depth fuel fuel' : Nat} {c d e l stop : Cursor}
  {bodies bodies' : List (Cursor × Cursor)} {k : Choice}
  {behind behind' : List (Piece (Cursor × Cursor))}

theorem Placed.closedByEnd_cursor (hc : s.Placed depth fuel 0 c) (d : Cursor) :
    closedByEnd fuel (s.cursor c) (s.cursor d) = closedByEnd depth c d := by
  have hplace : s.Placed depth fuel (0 + 0) c := hc
  have hform : (Form.alt topDeclaration closedStatement).Fits 0 0 := ⟨rfl, rfl, rfl⟩
  exact any_left_cursor (hplace.filter_ends hform) d

namespace Stands

theorem rest_eq_nil_iff (h : s.Stands depth fuel bodies c) :
    (s.cursor c).rest = [] ↔ c.rest = [] ∧ bodies.isEmpty = true := by
  rw [cursor_rest, List.append_eq_nil_iff]
  refine and_congr_right fun _ => ?_
  rw [h.tail, List.isEmpty_iff]
  cases bodies with
  | nil => exact iff_of_true rfl rfl
  | cons body bodies =>
    obtain ⟨-, hbrace, -⟩ := h.ahead
    refine iff_of_false (fun hnil => ?_) (List.cons_ne_nil _ _)
    have hrest : body.1.rest = [] := hnil
    rw [hrest] at hbrace
    cases hbrace

theorem continues_bodyEnd (h : s.Stands depth fuel bodies c)
    (hk : k ∈ choices depth (!bodies.isEmpty) c) (hlast : k.last = none) :
    continues fuel (s.cursor c) (s.stop (bodyEnd bodies) k) = true := by
  have hc := counted_cursor (s := s) h.placed.counted
  obtain ⟨hbodied, hkind⟩ := bodied_of_last_eq_none hk hlast
  match bodies, hbodied, h, hk with
  | (b, e) :: more, _, h, hk =>
    obtain ⟨hpath, -, hblock, behind, hbehind, -⟩ := h.ahead
    have hb := hpath.reaches.counted hc
    have hcandidate := h.candidate_mem hk
    have hstop : s.stop (bodyEnd ((b, e) :: more)) k = e := by rw [Setting.stop, hlast]; rfl
    rw [hstop]
    cases hbehind with
    | done hend =>
      rw [continues_of_rest_nil hend, ← hstop, ← last_candidate]
      exact closedByEnd_of_mem_candidates hc h.placed.enough' hkind hcandidate
    | more hends hrest =>
      have he : e.Counted := (Form.reaches_of_mem_ends hblock).counted hb
      rw [continues_of_endsItem hends]
      exact hrest.readable ((Cursor.reaches_skipInLine e).counted he).next

end Stands

namespace Shared

theorem gap (h : Shared s s' depth fuel fuel' bodies bodies' c) {pastLines : Bool}
    {comments : List Comment} (hskip : skipFrom pastLines c.left c = (comments, d)) :
    Shared s s' depth fuel fuel' bodies bodies' d :=
  ⟨h.first.gap hskip, h.second.gap hskip, h.bodied⟩

theorem skip (h : Shared s s' depth fuel fuel' bodies bodies' c) :
    Shared s s' depth fuel fuel' bodies bodies' c.skip :=
  h.gap (show skipFrom true c.left c = (_, c.skip) from rfl)

theorem skipInLine (h : Shared s s' depth fuel fuel' bodies bodies' c) :
    Shared s s' depth fuel fuel' bodies bodies' c.skipInLine :=
  h.gap (show skipFrom false c.left c = (_, c.skipInLine) from rfl)

theorem next (h : Shared s s' depth fuel fuel' bodies bodies' c) (hends : endsItem c = true) :
    Shared s s' depth fuel fuel' bodies bodies' c.next :=
  ⟨h.first.next hends, h.second.next hends, h.bodied⟩

theorem last (h : Shared s s' depth fuel fuel' bodies bodies' c)
    (hk : k ∈ choices depth (!bodies.isEmpty) c) (hlast : k.last = some l) :
    Shared s s' depth fuel fuel' bodies bodies' l :=
  ⟨h.first.last hk hlast, h.second.last (h.bodied ▸ hk) hlast, h.bodied⟩

theorem symm (h : Shared s s' depth fuel fuel' bodies bodies' c) :
    Shared s' s depth fuel' fuel bodies' bodies c :=
  ⟨h.second, h.first, h.bodied.symm⟩

theorem rest_eq_nil (h : Shared s s' depth fuel fuel' bodies bodies' c)
    (hnil : (s.cursor c).rest = []) : (s'.cursor c).rest = [] := by
  obtain ⟨hrest, hbodies⟩ := h.first.rest_eq_nil_iff.mp hnil
  exact h.second.rest_eq_nil_iff.mpr ⟨hrest, h.bodied ▸ hbodies⟩

theorem continues_of_behind (h : Shared s s' depth fuel fuel' bodies bodies' c)
    (hk : k ∈ choices depth (!bodies.isEmpty) c)
    (hcontinues : continues fuel (s.cursor c) (s.stop (bodyEnd bodies) k) = true)
    (hbehind : Behind fuel (s.stop (bodyEnd bodies) k) behind)
    (htaken : k.last = none ∨ bodySpans fuel behind = bodies)
    (hreadable : ∀ d pieces, d.left < c.left → Shared s s' depth fuel fuel' bodies bodies' d →
      Parsed fuel (s.cursor d) pieces → bodySpans fuel pieces = bodies →
        readable fuel' (s'.cursor d) = true) :
    continues fuel' (s'.cursor c) (s'.stop (bodyEnd bodies') k) = true := by
  cases hlast : k.last with
  | none => exact h.second.continues_bodyEnd (h.bodied ▸ hk) hlast
  | some l =>
    have hbodies := htaken.resolve_left (by simp [hlast])
    have hl := h.last hk hlast
    have hline := hl.skipInLine
    have hskip := cursor_skipInLine hl.first.placed.counted hl.first.placed.inside
    have hskip' := cursor_skipInLine hl.second.placed.counted hl.second.placed.inside
    have hstop : s.stop (bodyEnd bodies) k = s.cursor l := by rw [Setting.stop, hlast]; rfl
    have hstop' : s'.stop (bodyEnd bodies') k = s'.cursor l := by rw [Setting.stop, hlast]; rfl
    rw [hstop] at hcontinues hbehind
    rw [hstop']
    cases hbehind with
    | done hend =>
      rw [hskip] at hend
      have hend' : (s'.cursor l).skipInLine.rest = [] := hskip' ▸ hline.rest_eq_nil hend
      rw [continues_of_rest_nil (hskip ▸ hend), h.first.placed.closedByEnd_cursor] at hcontinues
      rw [continues_of_rest_nil hend', h.second.placed.closedByEnd_cursor, hcontinues]
    | more hends hrest =>
      rw [hskip, endsItem_cursor] at hends
      have hends' : endsItem (s'.cursor l).skipInLine = true := by rw [hskip', endsItem_cursor, hends]
      obtain ⟨hnext, -, hlt⟩ := hline.first.placed.next hends
      obtain ⟨hnext', -⟩ := hline.second.placed.next hends
      have hle := ((reaches_of_mem_choices hk hlast).trans (Cursor.reaches_skipInLine l)).left_le
        h.first.placed.counted
      rw [hskip, hnext] at hrest
      rw [continues_of_endsItem hends', hskip', hnext']
      rw [bodySpans_more] at hbodies
      exact hreadable _ _ (by omega) (hline.next hends) hrest hbodies

theorem readable_of_parsed (h : Shared s s' depth fuel fuel' bodies bodies' c)
    {pieces : List (Piece (Cursor × Cursor))} (hparsed : Parsed fuel (s.cursor c) pieces)
    (hbodies : bodySpans fuel pieces = bodies) : readable fuel' (s'.cursor c) = true := by
  induction hn : c.left using Nat.strong_induction_on generalizing c pieces with
  | _ n ih =>
    have hskip := cursor_skip h.first.placed.counted h.first.placed.inside
    have hskip' := cursor_skip h.second.placed.counted h.second.placed.inside
    cases hparsed with
    | done hend =>
      rw [hskip] at hend
      exact readable_of_rest_nil (hskip' ▸ h.skip.rest_eq_nil hend)
    | item hstart hstop hbehind =>
      rw [bodySpans_item, hskip] at hbodies
      rw [hskip] at hstop
      obtain ⟨k, hfirst, -, hlast, htaken⟩ := h.skip.first.exists_choice hstop hbehind hbodies
      have hk := List.mem_of_find?_eq_some hfirst
      have hcontinues := List.find?_some hfirst
      have hle := (Cursor.reaches_skip c).left_le h.first.placed.counted
      have hcontinues' := h.skip.continues_of_behind hk hcontinues (hlast.symm ▸ hbehind)
        (htaken.imp And.left fun ⟨_, _, hbodies⟩ => hbodies) fun d pieces hd hshared hparsed hbodies =>
          ih d.left (by omega) hshared hparsed hbodies rfl
      have hmem := h.skip.second.stop_mem (h.bodied ▸ hk)
      rw [← hskip'] at hmem hcontinues'
      exact readable_of_continues (counted_cursor h.second.placed.counted) hmem hcontinues'

theorem eq_of_find?_eq {α : Type} {as : List α} {p q : α → Bool} {a b : α}
    (ha : as.find? p = some a) (hb : as.find? q = some b) (hpb : p b = true) (hqa : q a = true) :
    a = b := by
  induction as with
  | nil => cases ha
  | cons x as ih =>
    by_cases hp : p x = true
    · rw [List.find?_cons_of_pos hp] at ha
      obtain rfl := Option.some.inj ha
      rw [List.find?_cons_of_pos hqa] at hb
      exact Option.some.inj hb
    · rw [List.find?_cons_of_neg hp] at ha
      by_cases hq : q x = true
      · rw [List.find?_cons_of_pos hq] at hb
        obtain rfl := Option.some.inj hb
        exact absurd hpb hp
      · rw [List.find?_cons_of_neg hq] at hb
        exact ih ha hb

/-- Both sources take the same choice: an item that ends with the body behind the segment, or one in
the segment. -/
theorem exists_choice (h : Shared s s' depth fuel fuel' bodies bodies' c) {stop' : Cursor}
    (hstop : (topItem.ends fuel (s.cursor c)).find? (continues fuel (s.cursor c)) = some stop)
    (hstop' : (topItem.ends fuel' (s'.cursor c)).find? (continues fuel' (s'.cursor c)) = some stop')
    (hbehind : Behind fuel stop behind) (hbehind' : Behind fuel' stop' behind')
    (hbodies : (bodySpan? fuel (s.cursor c) stop).toList ++ bodySpans fuel behind = bodies)
    (hbodies' : (bodySpan? fuel' (s'.cursor c) stop').toList ++ bodySpans fuel' behind' = bodies') :
    ∃ k, k ∈ choices depth (!bodies.isEmpty) c ∧
      candidateTo fuel (s.cursor c) stop = some (k.kind, k.head.map s.cursor ++ [stop]) ∧
      candidateTo fuel' (s'.cursor c) stop' = some (k.kind, k.head.map s'.cursor ++ [stop']) ∧
      ((k.last = none ∧ (∃ b, bodies = (b, stop) :: bodySpans fuel behind) ∧
          ∃ b, bodies' = (b, stop') :: bodySpans fuel' behind') ∨
        ∃ l, k.last = some l ∧ stop = s.cursor l ∧ stop' = s'.cursor l ∧
          bodySpans fuel behind = bodies ∧ bodySpans fuel' behind' = bodies') := by
  obtain ⟨k, hfirst, hcandidate, hlast, htaken⟩ := h.first.exists_choice hstop hbehind hbodies
  obtain ⟨k', hfirst', hcandidate', hlast', htaken'⟩ :=
    h.second.exists_choice hstop' hbehind' hbodies'
  rw [← h.bodied] at hfirst'
  have hk := List.mem_of_find?_eq_some hfirst
  have hk' := List.mem_of_find?_eq_some hfirst'
  have hcontinues := List.find?_some hfirst
  have hcontinues' := List.find?_some hfirst'
  have hforth := h.continues_of_behind hk hcontinues (hlast.symm ▸ hbehind)
    (htaken.imp And.left fun ⟨_, _, hbodies⟩ => hbodies) fun _ _ _ hshared hparsed hbodies =>
      hshared.readable_of_parsed hparsed hbodies
  have hback := h.symm.continues_of_behind (h.bodied ▸ hk') hcontinues' (hlast'.symm ▸ hbehind')
    (htaken'.imp And.left fun ⟨_, _, hbodies⟩ => hbodies) fun _ _ _ hshared hparsed hbodies =>
      hshared.readable_of_parsed hparsed hbodies
  obtain rfl : k = k' := eq_of_find?_eq hfirst hfirst' hback hforth
  rw [candidate, hlast] at hcandidate
  rw [candidate, hlast'] at hcandidate'
  refine ⟨k, hk, hcandidate, hcandidate', ?_⟩
  rcases htaken with ⟨hnone, hbody⟩ | ⟨l, hl, hbodies⟩
  · rcases htaken' with ⟨-, hbody'⟩ | ⟨l, hl, -⟩
    · exact .inl ⟨hnone, hbody, hbody'⟩
    · cases hnone.symm.trans hl
  · rcases htaken' with ⟨hnone, -⟩ | ⟨_, -, hbodies'⟩
    · cases hnone.symm.trans hl
    · rw [Setting.stop, hl] at hlast hlast'
      exact .inr ⟨l, hl, hlast.symm, hlast'.symm, hbodies, hbodies'⟩

end Shared

end Setting

end SourceBundle.Go
