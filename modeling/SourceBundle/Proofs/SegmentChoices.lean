import SourceBundle.Proofs.FunctionBodies

/-!
# Choices in a segment

The items of a segment are read in the source that it stands in as they are read in any other source
where it stands: the candidates that end in the segment, or with the body behind it, come in the same
order, and behind one that is taken every such source goes on as it should.
-/

namespace SourceBundle.Go

def bodyEnd (bodies : List (Cursor × Cursor)) : Cursor :=
  bodies.head?.elim (.ofText []) Prod.snd

/-- A candidate of a segment: what stands before its last part, and where that ends. The last part may
be a body behind the segment. -/
structure Choice where
  kind : ItemKind
  head : List Cursor
  /-- None behind a body. -/
  last : Option Cursor

def lasts (fuel : Nat) (bodied : Bool) (kind : ItemKind) (d : Cursor) : List (Option Cursor) :=
  if bodied && kind != .other && d.skipInLine.rest.isEmpty then [none, some d]
  else (kind.final.ends fuel d).map some

/-- The candidates of a segment, in the order in which one is taken. -/
def choices (fuel : Nat) (bodied : Bool) (c : Cursor) : List Choice :=
  [.function, .method, .other].flatMap fun kind =>
    (readings fuel kind.head c).flatMap fun ds =>
      (lasts fuel bodied kind (ds.getLastD c)).map (Choice.mk kind ds)

namespace Setting

/-- A place of a segment of a source with these bodies ahead: the first of them stands behind the
segment. -/
structure Stands (s : Setting) (fuel fuel' : Nat) (bodies : List (Cursor × Cursor)) (c : Cursor) :
    Prop where
  placed : s.Placed fuel fuel' 0 c
  ahead : Ahead fuel' (s.cursor c) bodies
  tail : s.tail = bodies.head?.elim [] fun body => body.1.rest

def stop (s : Setting) (e : Cursor) (k : Choice) : Cursor :=
  k.last.elim e s.cursor

def candidate (s : Setting) (e : Cursor) (k : Choice) : ItemKind × List Cursor :=
  (k.kind, k.head.map s.cursor ++ [s.stop e k])

def isChoice (s : Setting) (bodied : Bool) (c : Cursor) (p : ItemKind × List Cursor) : Bool :=
  p.2.dropLast.all s.near &&
    (s.near (p.2.getLastD c) ||
      (bodied && p.1 != .other && (p.2.dropLast.getLastD c).skipInLine.left == s.tail.length))

variable {s : Setting} {fuel fuel' n m k : Nat} {c d e stop : Cursor}
  {bodies : List (Cursor × Cursor)}

namespace Stands

theorem near_of_ahead (h : s.Stands fuel fuel' bodies c) (hd : d.Counted)
    (hahead : Ahead fuel' d bodies) : s.near d = true := by
  rw [near, decide_eq_true_eq, h.tail]
  cases bodies with
  | nil => exact Nat.zero_le _
  | cons body bodies =>
    obtain ⟨hpath, -⟩ := hahead
    have hbody := hpath.reaches.counted hd
    exact hbody ▸ hpath.reaches.left_le hd

theorem of_path (h : s.Stands fuel fuel' bodies c) (hreach : c.Reaches d)
    (hpath : Path 0 (s.cursor c) 0 (s.cursor d)) : s.Stands fuel fuel' bodies d := by
  have hsource := counted_cursor (s := s) h.placed.counted
  refine ⟨h.placed.of_path hreach hpath, ?_, h.tail⟩
  have hahead := h.ahead
  have htail := h.tail
  cases bodies with
  | nil =>
    obtain ⟨e, hend, hnil⟩ := hahead
    have hleft : e.left = 0 := by
      rw [hend.reaches.counted hsource, hnil]
      rfl
    exact ⟨e, hpath.rest_of_le hsource hend (by omega), hnil⟩
  | cons body bodies =>
    obtain ⟨hbody, hfurther⟩ := hahead
    have hleft : body.1.left = s.tail.length := by
      rw [hbody.reaches.counted hsource, htail]
      rfl
    refine ⟨hpath.rest_of_le hsource hbody ?_, hfurther⟩
    rw [hleft, cursor_left]
    omega

theorem gap (h : s.Stands fuel fuel' bodies c) {pastLines : Bool} {comments : List Comment}
    (hskip : skipFrom pastLines c.left c = (comments, d)) : s.Stands fuel fuel' bodies d := by
  obtain ⟨hgap, -, hreach⟩ := h.placed.gap hskip
  have hpath : Path 0 (s.cursor c) 0 (skipFrom pastLines (s.cursor c).left (s.cursor c)).2 :=
    .skipFrom pastLines _ _
  rw [hgap] at hpath
  exact h.of_path hreach hpath

theorem next (h : s.Stands fuel fuel' bodies c) (hends : endsItem c = true) :
    s.Stands fuel fuel' bodies c.next := by
  have hpath : Path 0 (s.cursor c) 0 (s.cursor c).next :=
    .of_endsItem ((endsItem_cursor c).trans hends)
  rw [(h.placed.next hends).1] at hpath
  exact h.of_path (Cursor.reaches_next c) hpath

end Stands

/-! ## The order of choices -/

theorem Stands.last_of_mem_readings {fs : List Form} (h : s.Stands fuel fuel' bodies c)
    (hfs : Fit fs 0 0) {ds : List Cursor} (hds : ds ∈ readings fuel fs c) :
    Path 0 (s.cursor c) 0 (s.cursor (ds.getLastD c)) ∧ s.Stands fuel fuel' bodies (ds.getLastD c) := by
  have hplace : s.Placed fuel fuel' (0 + 0) c := h.placed
  have hmem : ds.map s.cursor ∈ readings fuel' fs (s.cursor c) :=
    (List.mem_filter.mp (hplace.filter_readings hfs ▸ List.mem_map_of_mem hds)).1
  have hpath := path_of_mem_readings (counted_cursor h.placed.counted) hfs hmem
  rw [List.getLastD_map] at hpath
  exact ⟨hpath, h.of_path (path_of_mem_readings h.placed.counted hfs hds).reaches hpath⟩

theorem eq_singleton_of_distinct {es : List Cursor} (hdistinct : Distinct es) (he : e ∈ es)
    (hall : ∀ d ∈ es, d = e) : es = [e] := by
  match es with
  | [] => cases he
  | [d] => rw [hall d List.mem_cons_self]
  | d :: d' :: es =>
    rw [hall d List.mem_cons_self, hall d' (by simp)] at hdistinct
    simp [Distinct] at hdistinct

theorem Stands.ends_final {b : Cursor} {more : List (Cursor × Cursor)}
    (h : s.Stands fuel fuel' ((b, e) :: more) c) (hd : s.Placed fuel fuel' 0 d)
    (hpath : Path 0 (s.cursor c) 0 (s.cursor d)) {kind : ItemKind} (hkind : kind ≠ .other)
    (hend : d.skipInLine.rest = []) :
    kind.final.ends fuel' (s.cursor d) = [e, s.cursor d] := by
  have hfinal : kind.final = Form.optional (.sameLine (.phrase .block)) := by
    cases kind with
    | other => exact absurd rfl hkind
    | _ => rfl
  have hc := counted_cursor (s := s) h.placed.counted
  obtain ⟨hbody, hbrace, hblock, -⟩ := h.ahead
  have hb := hbody.reaches.counted hc
  have hskip := Cursor.reaches_skipInLine (s.cursor d)
  have hborder : (s.cursor d).skipInLine = b := by
    refine Cursor.Reaches.eq_of_left_eq hc (hpath.reaches.trans hskip) hbody.reaches ?_
    have hline := (Cursor.reaches_skipInLine d).counted hd.counted
    rw [cursor_skipInLine hd.counted hd.inside, cursor_left, hline, hend, hb, h.tail]
    exact Nat.zero_add _
  have hle := hskip.left_le (counted_cursor hd.counted)
  rw [hborder] at hle
  have hfuel := hd.enough'
  obtain ⟨depth, rfl⟩ := Nat.exists_eq_add_of_le' (show 2 ≤ fuel' by omega)
  have hsame : (Form.phrase .block).ends depth b = (Form.phrase .block).ends (depth + 2) b :=
    Form.ends_fuel hb (show _ = true from rfl) (show _ + 200 ≤ _ by omega) (by omega)
  have hsingle : (Form.phrase .block).ends depth b = [e] := by
    rw [hsame]
    exact eq_singleton_of_distinct (Form.distinct_ends _ _ _) hblock fun x hx =>
      block_end_unique hb hx hblock
  have hlt : e.left < b.left := Form.left_lt_of_mem_ends hb rfl hblock
  have hline : ¬b.rest.head? = some '\n' := by
    rw [hbrace]
    decide
  have hends : (Form.sameLine (.phrase .block)).ends (depth + 1) (s.cursor d) = [e] := by
    rw [ends_sameLine, hborder, if_neg hline, hsingle]
  have hne : ¬e.left = d.left + s.tail.length := by
    rw [cursor_left] at hle
    omega
  rw [hfinal]
  show Cursor.union ((Form.sameLine (.phrase .block)).ends (depth + 1) (s.cursor d)) [s.cursor d] = _
  rw [hends]
  simp [Cursor.union, Cursor.addEnd, hne]

theorem Stands.filter_final (h : s.Stands fuel fuel' bodies c)
    (hpath : Path 0 (s.cursor c) 0 (s.cursor d)) (hd : s.Placed fuel fuel' 0 d) (kind : ItemKind) :
    ((kind.final.ends fuel' (s.cursor d)).filter fun x =>
        s.near x || (!bodies.isEmpty && kind != .other && d.skipInLine.rest.isEmpty)) =
      (lasts fuel (!bodies.isEmpty) kind d).map fun l => l.elim (bodyEnd bodies) s.cursor := by
  have hplace : s.Placed fuel fuel' (0 + 0) d := hd
  rw [lasts]
  cases hborder : !bodies.isEmpty && kind != .other && d.skipInLine.rest.isEmpty with
  | false =>
    simp only [Bool.or_false, Bool.false_eq_true, if_false]
    rw [hplace.filter_ends kind.fits_final, List.map_map]
    rfl
  | true =>
    simp only [Bool.and_eq_true, Bool.not_eq_true', bne_iff_ne, ne_eq, List.isEmpty_iff] at hborder
    obtain ⟨⟨hbodied, hkind⟩, hend⟩ := hborder
    match bodies, hbodied, h with
    | (b, e) :: more, _, h =>
      rw [h.ends_final hd hpath hkind hend]
      simp [bodyEnd]

/-- The candidates of a source that are choices of a segment come in their order. -/
theorem Stands.filter_candidates (h : s.Stands fuel fuel' bodies c) :
    (candidates fuel' (s.cursor c)).filter (s.isChoice (!bodies.isEmpty) (s.cursor c)) =
      (choices fuel (!bodies.isEmpty) c).map (s.candidate (bodyEnd bodies)) := by
  have hplace : s.Placed fuel fuel' (0 + 0) c := h.placed
  rw [candidates, choices, List.filter_flatMap, List.map_flatMap]
  refine List.flatMap_congr fun kind _ => ?_
  have hfar : ∀ ds ∈ readings fuel' kind.head (s.cursor c), ds.all s.near = false →
      ((((kind.final.ends fuel' (ds.getLastD (s.cursor c))).map fun d => ds ++ [d]).map
        (kind, ·)).filter (s.isChoice (!bodies.isEmpty) (s.cursor c))) = [] := by
    intro ds _ hfar
    rw [List.filter_eq_nil_iff]
    intro p hp
    rw [List.map_map] at hp
    obtain ⟨d, -, rfl⟩ := List.mem_map.mp hp
    simp only [isChoice, Function.comp_apply, List.dropLast_concat, hfar, Bool.false_and]
    exact Bool.false_ne_true
  rw [ItemKind.parts, readings_append_singleton, List.map_flatMap, filter_flatMap_near hfar,
    hplace.filter_readings kind.fit_head, List.flatMap_map, List.map_flatMap]
  refine List.flatMap_congr fun ds hds => ?_
  obtain ⟨hpath, hlast⟩ := h.last_of_mem_readings kind.fit_head hds
  have hd := hlast.placed
  have hline := (Cursor.reaches_skipInLine (ds.getLastD c)).counted hd.counted
  have hchoice (x : Cursor) :
      s.isChoice (!bodies.isEmpty) (s.cursor c) (kind, ds.map s.cursor ++ [x]) =
        (s.near x || (!bodies.isEmpty && kind != .other &&
          (ds.getLastD c).skipInLine.rest.isEmpty)) := by
    have hborder : ((s.cursor (ds.getLastD c)).skipInLine.left == s.tail.length) =
        (ds.getLastD c).skipInLine.rest.isEmpty := by
      rw [Bool.eq_iff_iff, beq_iff_eq, List.isEmpty_iff, cursor_skipInLine hd.counted hd.inside,
        cursor_left, ← List.length_eq_zero_iff, ← hline]
      omega
    have hnear : (ds.map s.cursor).all s.near = true := by simp
    simp only [isChoice, List.dropLast_concat, hnear, Bool.true_and, List.getLastD_map, hborder,
      List.getLastD_concat]
  rw [List.map_map, List.filter_map, List.map_map, List.getLastD_map]
  simp only [Function.comp_def, hchoice]
  rw [h.filter_final hpath hd kind, List.map_map]
  rfl

/-! ## What is taken -/

theorem mem_choices {bodied : Bool} {k : Choice} (hk : k ∈ choices fuel bodied c) :
    k.head ∈ readings fuel k.kind.head c ∧
      k.last ∈ lasts fuel bodied k.kind (k.head.getLastD c) := by
  obtain ⟨kind, -, hk⟩ := List.mem_flatMap.mp hk
  obtain ⟨ds, hds, hk⟩ := List.mem_flatMap.mp hk
  obtain ⟨l, hl, rfl⟩ := List.mem_map.mp hk
  exact ⟨hds, hl⟩

theorem bodied_of_last_eq_none {bodied : Bool} {k : Choice} (hk : k ∈ choices fuel bodied c)
    (hlast : k.last = none) : bodied = true ∧ k.kind ≠ .other := by
  obtain ⟨-, hmem⟩ := mem_choices hk
  rw [hlast, lasts] at hmem
  split at hmem
  · next hborder =>
    simp only [Bool.and_eq_true, bne_iff_ne, ne_eq] at hborder
    exact hborder.1
  · simp at hmem

theorem reaches_of_mem_choices {bodied : Bool} {k : Choice} {l : Cursor}
    (hk : k ∈ choices fuel bodied c) (hlast : k.last = some l) : c.Reaches l := by
  obtain ⟨hhead, hmem⟩ := mem_choices hk
  have hreach : c.Reaches (k.head.getLastD c) := by
    rcases List.eq_nil_or_concat k.head with hnil | ⟨ds, d, hconcat⟩
    · rw [hnil]
      exact .refl c
    · rw [hconcat] at hhead ⊢
      exact reaches_of_mem_readings hhead _ (by simp)
  rw [hlast, lasts] at hmem
  split at hmem
  · have heq : l = k.head.getLastD c := by simpa using hmem
    exact heq ▸ hreach
  · obtain ⟨d, hd, heq⟩ := List.mem_map.mp hmem
    obtain rfl := Option.some.inj heq
    exact hreach.trans (Form.reaches_of_mem_ends hd)

theorem find?_filter_of_find? {α : Type} {as : List α} {kept wanted : α → Bool} {a : α}
    (h : as.find? wanted = some a) (ha : kept a = true) : (as.filter kept).find? wanted = some a := by
  obtain ⟨hwanted, earlier, later, rfl, hearlier⟩ := List.find?_eq_some_iff_append.mp h
  rw [List.filter_append, List.filter_cons_of_pos ha]
  exact List.find?_eq_some_iff_append.mpr
    ⟨hwanted, _, _, rfl, fun b hb => hearlier b (List.mem_of_mem_filter hb)⟩

theorem last_candidate (k : Choice) : (s.candidate e k).2.getLastD c = s.stop e k :=
  List.getLastD_concat

namespace Stands

theorem candidate_mem (h : s.Stands fuel fuel' bodies c) {k : Choice}
    (hk : k ∈ choices fuel (!bodies.isEmpty) c) :
    s.candidate (bodyEnd bodies) k ∈ candidates fuel' (s.cursor c) :=
  (List.mem_filter.mp (h.filter_candidates ▸ List.mem_map_of_mem hk)).1

theorem stop_mem (h : s.Stands fuel fuel' bodies c) {k : Choice}
    (hk : k ∈ choices fuel (!bodies.isEmpty) c) :
    s.stop (bodyEnd bodies) k ∈ topItem.ends fuel' (s.cursor c) := by
  have hmem := last_mem_topItem (counted_cursor h.placed.counted) h.placed.enough' (h.candidate_mem hk)
  rwa [last_candidate] at hmem

theorem last (h : s.Stands fuel fuel' bodies c) {k : Choice} {l : Cursor}
    (hk : k ∈ choices fuel (!bodies.isEmpty) c) (hlast : k.last = some l) :
    s.Stands fuel fuel' bodies l := by
  have hmem := h.stop_mem hk
  rw [Setting.stop, hlast] at hmem
  have hlevel : topItem.level 0 = some 0 := rfl
  exact h.of_path (reaches_of_mem_choices hk hlast)
    (Form.path_of_mem_ends (counted_cursor h.placed.counted) hlevel hmem)

theorem not_near_bodyEnd (h : s.Stands fuel fuel' bodies c) (hbodied : bodies.isEmpty = false) :
    s.near (bodyEnd bodies) = false := by
  match bodies, hbodied, h with
  | (b, e) :: more, _, h =>
    obtain ⟨hpath, -, hblock, -⟩ := h.ahead
    have hb := hpath.reaches.counted (counted_cursor h.placed.counted)
    have hlt : e.left < b.left := Form.left_lt_of_mem_ends hb rfl hblock
    rw [near, decide_eq_false_iff_not, h.tail]
    show ¬b.rest.length ≤ e.left
    rw [← hb]
    omega

variable {behind : List (Piece (Cursor × Cursor))} {p : ItemKind × List Cursor}

theorem near_of_behind (h : s.Stands fuel fuel' bodies c) (hreach : (s.cursor c).Reaches stop)
    (hbehind : Behind fuel' stop behind) (hbodies : bodySpans fuel' behind = bodies) :
    s.near stop = true := by
  have hc := counted_cursor (s := s) h.placed.counted
  have hle := hreach.left_le hc
  have henough := h.placed.enough'
  have hahead := hbehind.ahead (hreach.counted hc) (by omega)
  rw [hbodies] at hahead
  exact h.near_of_ahead (hreach.counted hc) hahead

theorem isChoice_of_taken (h : s.Stands fuel fuel' bodies c)
    (hp : p ∈ candidates fuel' (s.cursor c)) (hlast : p.2.getLastD (s.cursor c) = stop)
    (hcandidate : candidateTo fuel' (s.cursor c) stop = some p) (hbehind : Behind fuel' stop behind)
    (hbodies : (bodySpan? fuel' (s.cursor c) stop).toList ++ bodySpans fuel' behind = bodies) :
    s.isChoice (!bodies.isEmpty) (s.cursor c) p = true := by
  have hc := counted_cursor (s := s) h.placed.counted
  have hreach := reaches_of_mem_candidates hp
  rw [hlast] at hreach
  obtain ⟨kind, -, hmem⟩ := List.mem_flatMap.mp hp
  obtain ⟨ds, hds, rfl⟩ := List.mem_map.mp hmem
  cases hspan : bodySpan? fuel' (s.cursor c) stop with
  | none =>
    rw [hspan] at hbodies
    have hnear := h.near_of_behind hreach hbehind hbodies
    have hall : ds.all s.near = true := near_of_near_last hc hds (hlast ▸ hnear)
    have hinit : ds.dropLast.all s.near = true :=
      List.all_eq_true.mpr fun d hd => List.all_eq_true.mp hall d (List.dropLast_subset ds hd)
    simp only [isChoice, hinit, hlast, hnear, Bool.true_or, Bool.and_self]
  | some body =>
    obtain ⟨b, e⟩ := body
    rw [hspan] at hbodies
    obtain ⟨kind', es, d, hkind, hcandidate', -, rfl⟩ := candidateTo_of_bodySpan? hspan
    cases hcandidate.symm.trans hcandidate'
    subst hbodies
    obtain ⟨hpath, -⟩ := h.ahead
    have hb := hpath.reaches.counted hc
    have hborder : s.tail.length = d.skipInLine.left := by
      rw [hb, h.tail]
      rfl
    have hreading : (es ++ [d]) ++ [e] ∈ readings fuel' (kind.head ++ [kind.final]) (s.cursor c) := by
      rw [List.append_assoc]
      exact hds
    obtain ⟨hhead, -⟩ := mem_readings_append_singleton hreading
    have hdLast : (es ++ [d]).getLastD (s.cursor c) = d := List.getLastD_concat
    have hd := (reaches_of_mem_readings hhead d (by simp)).counted hc
    have hnear : s.near d = true := by
      rw [near, decide_eq_true_eq, hborder]
      exact (Cursor.reaches_skipInLine d).left_le hd
    have hall : (es ++ [d]).all s.near = true := near_of_near_last hc hhead (hdLast.symm ▸ hnear)
    have hinit : (es ++ [d, e]).dropLast = es ++ [d] := by
      rw [show es ++ [d, e] = (es ++ [d]) ++ [e] by simp]
      exact List.dropLast_concat
    simp [isChoice, hinit, hall, hborder, hkind]

/-- What a source takes where it stands in a segment is a choice of the segment: the first one behind
which the source goes on as it should. -/
theorem exists_choice (h : s.Stands fuel fuel' bodies c)
    (hstop : (topItem.ends fuel' (s.cursor c)).find? (continues fuel' (s.cursor c)) = some stop)
    (hbehind : Behind fuel' stop behind)
    (hbodies : (bodySpan? fuel' (s.cursor c) stop).toList ++ bodySpans fuel' behind = bodies) :
    ∃ k, (choices fuel (!bodies.isEmpty) c).find? (fun k =>
        continues fuel' (s.cursor c) (s.stop (bodyEnd bodies) k)) = some k ∧
      candidateTo fuel' (s.cursor c) stop = some (s.candidate (bodyEnd bodies) k) ∧
      s.stop (bodyEnd bodies) k = stop ∧
      ((k.last = none ∧ ∃ b, bodies = (b, stop) :: bodySpans fuel' behind) ∨
        ∃ l, k.last = some l ∧ bodySpans fuel' behind = bodies) := by
  have hc := counted_cursor (s := s) h.placed.counted
  obtain ⟨p, hfirst, hlast, hcandidate⟩ := exists_candidate hc h.placed.enough' hstop
  have hp := List.mem_of_find?_eq_some hfirst
  have hchoice := h.isChoice_of_taken hp hlast hcandidate hbehind hbodies
  have hfiltered := find?_filter_of_find? hfirst hchoice
  rw [h.filter_candidates, List.find?_map] at hfiltered
  obtain ⟨k, hk, rfl⟩ := Option.map_eq_some_iff.mp hfiltered
  rw [last_candidate] at hlast
  have hmem := List.mem_of_find?_eq_some hk
  simp only [Function.comp_def, last_candidate] at hk
  refine ⟨k, hk, hcandidate, hlast, ?_⟩
  have hmemStop := h.stop_mem hmem
  rw [hlast] at hmemStop
  cases hspan : bodySpan? fuel' (s.cursor c) stop with
  | none =>
    rw [hspan] at hbodies
    cases hk' : k.last with
    | some l => exact .inr ⟨l, rfl, hbodies⟩
    | none =>
      obtain ⟨hbodied, -⟩ := bodied_of_last_eq_none hmem hk'
      have hnear := h.near_of_behind (Form.reaches_of_mem_ends hmemStop) hbehind hbodies
      have hend : s.stop (bodyEnd bodies) k = bodyEnd bodies := by rw [Setting.stop, hk']; rfl
      rw [← hlast, hend, h.not_near_bodyEnd (by simpa using hbodied)] at hnear
      cases hnear
  | some body =>
    obtain ⟨b, e⟩ := body
    rw [hspan] at hbodies
    obtain ⟨rfl, -⟩ := body_of_item hc h.placed.enough' hmemStop hspan
    cases hk' : k.last with
    | none => exact .inl ⟨rfl, b, hbodies.symm⟩
    | some l =>
      subst hbodies
      have hfar : s.near e = false := h.not_near_bodyEnd rfl
      rw [← hlast, Setting.stop, hk', Option.elim_some, near_cursor] at hfar
      cases hfar

end Stands

end Setting

end SourceBundle.Go
