import SourceBundle.Proofs.BodyTexts
import SourceBundle.Proofs.SharedSegments

/-!
# Outlines without bodies

The symbols of a source without mistakes do not depend on the bodies of its functions and methods: two
sources that have the same texts between their bodies have the same symbols, whatever the bodies hold
and however many lines they have.
-/

namespace SourceBundle.Go

/-! ## What a function declares without its body -/

def declarationOf (fuel : Nat) (kind : ItemKind) (c : Cursor) (ds : List Cursor) :
    Option Declaration :=
  match kind with
  | .function => functionOf c ds
  | .method => methodOf fuel c ds
  | .other => none

section

variable {fuel fuel' : Nat} {c d e stop : Cursor}

theorem word_unique {w w' : String} (h : d ∈ (Form.word w).ends fuel c)
    (h' : e ∈ (Form.word w').ends fuel' c) : w = w' := by
  have htext {w : String} {fuel : Nat} {d : Cursor} (h : d ∈ (Form.word w).ends fuel c) :
      c.skip.rest.take (wordLength c.skip.rest) = w.toList := by
    cases fuel with
    | zero => cases h
    | succ fuel =>
      have htoken : d ∈ (Form.word w).tokenEnds c.skip := h
      rw [Form.tokenEnds] at htoken
      split at htoken
      · next hword =>
        rw [Bool.and_eq_true, beq_iff_eq] at hword
        exact hword.2
      · cases htoken
  exact String.toList_inj.mp ((htext h).symm.trans (htext h'))

theorem readDeclaration_of_func (h : d ∈ (Form.word "func").ends fuel c) (stop : Cursor) :
    readDeclaration fuel c stop =
      ((readFunction fuel c stop).or (readMethod fuel c stop)).getD .other := by
  have hnone {w : String} (hw : w ≠ "func") : ((Form.word w).ends fuel c).head? = none := by
    rw [List.head?_eq_none_iff, List.eq_nil_iff_forall_not_mem]
    exact fun e he => hw (word_unique he h)
  obtain ⟨e, hsome⟩ : ∃ e, ((Form.word "func").ends fuel c).head? = some e := by
    cases hends : (Form.word "func").ends fuel c with
    | nil =>
      rw [hends] at h
      cases h
    | cons e es => exact ⟨e, rfl⟩
  simp only [readDeclaration]
  rw [hnone (by decide), hnone (by decide), hnone (by decide), hsome]

theorem readDeclaration_of_candidateTo {kind : ItemKind} {ds : List Cursor} (hkind : kind ≠ .other)
    (h : candidateTo fuel c stop = some (kind, ds)) :
    readDeclaration fuel c stop = (declarationOf fuel kind c ds).getD .other := by
  obtain ⟨kind', -, hmem⟩ := List.mem_flatMap.mp (List.mem_of_find?_eq_some h)
  obtain ⟨es, hes, heq⟩ := List.mem_map.mp hmem
  cases heq
  have hparts : kind.parts = .word "func" :: kind.parts.tail := by
    cases kind with
    | other => exact absurd rfl hkind
    | _ => rfl
  have hreading := hes
  rw [hparts] at hreading
  obtain ⟨d, -, -, hword, -⟩ := exists_of_mem_readings_cons hreading
  rw [readDeclaration_of_func hword]
  have hlength := length_of_mem_readings hes
  cases kind with
  | other => exact absurd rfl hkind
  | function =>
    have hfunction : readingTo fuel functionParts c stop = some ds := (readingTo_of_candidateTo h).1
    rw [readFunction_eq, hfunction, Option.bind_some, declarationOf]
    match ds, hlength with
    | [_, _, _, _, _, _], _ => rfl
  | method =>
    obtain ⟨hmethod, hfunction⟩ := readingTo_of_candidateTo h
    have hmethod : readingTo fuel methodParts c stop = some ds := hmethod
    rw [readFunction_eq, hfunction (by decide), readMethod_eq, hmethod]
    rfl

end

theorem exists_of_length_eq_five {α : Type} {l : List α} (h : l.length = 5) :
    ∃ a b c d e, l = [a, b, c, d, e] := by
  obtain ⟨a, l, rfl⟩ := List.exists_cons_of_length_eq_add_one h
  obtain ⟨b, l, rfl⟩ := List.exists_cons_of_length_eq_add_one (Nat.succ.inj h)
  obtain ⟨c, d, e, rfl⟩ := List.length_eq_three.mp (by simpa using h)
  exact ⟨a, b, c, d, e, rfl⟩

namespace Setting

variable {s s' : Setting} {depth fuel fuel' n : Nat} {c d e stop : Cursor}
  {bodies bodies' : List (Cursor × Cursor)}

theorem Stands.symbols_declarationOf (h : s.Stands depth fuel bodies c) {kind : ItemKind}
    {ds : List Cursor} (hds : ds ∈ readings depth kind.head c) (stop stop' : Cursor)
    (doc : Option String) :
    ((declarationOf fuel kind (s.cursor c) (ds.map s.cursor ++ [stop])).getD .other).symbols doc =
      ((declarationOf depth kind c (ds ++ [stop'])).getD .other).symbols doc := by
  have hplace : s.Placed depth fuel (0 + 0) c := h.placed
  have hplaces := hplace.of_mem_readings kind.fit_head hds
  have hlength := length_of_mem_readings hds
  have htexts := h.placed.partTexts_cursor hplaces
  cases kind with
  | other => rfl
  | function =>
    obtain ⟨d₁, d₂, d₃, d₄, d₅, rfl⟩ := exists_of_length_eq_five hlength
    simp only [List.map_cons, List.map_nil, partTexts, List.cons.injEq, and_true] at htexts
    simp only [declarationOf, functionOf, List.map_cons, List.map_nil, List.cons_append,
      List.nil_append, partTexts, htexts]
    rfl
  | method =>
    obtain ⟨d₁, d₂, d₃, d₄, d₅, rfl⟩ := exists_of_length_eq_five hlength
    obtain ⟨l, hd₁⟩ := hplaces d₁ List.mem_cons_self
    simp only [List.map_cons, List.map_nil, partTexts, List.cons.injEq, and_true] at htexts
    simp only [declarationOf, methodOf, List.map_cons, List.map_nil, List.cons_append,
      List.nil_append, partTexts, htexts, hd₁.receiverTypeOf_cursor d₂]
    rfl

theorem Shared.symbols_readDeclaration (h : Shared s s' depth fuel fuel' bodies bodies' c)
    {stop' : Cursor} {k : Choice} (hk : k ∈ choices depth (!bodies.isEmpty) c)
    (hcandidate : candidateTo fuel (s.cursor c) stop = some (k.kind, k.head.map s.cursor ++ [stop]))
    (hcandidate' : candidateTo fuel' (s'.cursor c) stop' =
      some (k.kind, k.head.map s'.cursor ++ [stop']))
    (htaken : k.last = none ∨ ∃ l, stop = s.cursor l ∧ stop' = s'.cursor l) (doc : Option String) :
    (readDeclaration fuel (s.cursor c) stop).symbols doc =
      (readDeclaration fuel' (s'.cursor c) stop').symbols doc := by
  rcases htaken with hlast | ⟨l, rfl, rfl⟩
  · obtain ⟨-, hkind⟩ := bodied_of_last_eq_none hk hlast
    obtain ⟨hhead, -⟩ := mem_choices hk
    rw [readDeclaration_of_candidateTo hkind hcandidate,
      readDeclaration_of_candidateTo hkind hcandidate',
      h.first.symbols_declarationOf hhead stop c doc, h.second.symbols_declarationOf hhead stop' c doc]
  · rw [h.first.placed.symbols_readDeclaration l doc, h.second.placed.symbols_readDeclaration l doc]

/-! ## Segments between bodies -/

theorem Stands.textsOutside_eq (h : s.Stands depth fuel bodies c) (d : Cursor) :
    textsOutside (s.cursor c) bodies = c.rest :: (textsOutside d bodies).tail := by
  have hc := h.placed.counted
  have htail := h.tail
  match bodies, h, htail with
  | [], _, htail =>
    have hnil : s.tail = [] := htail
    rw [textsOutside, cursor_rest, hnil, List.append_nil]
    rfl
  | (b, e) :: more, h, htail =>
    obtain ⟨hpath, -⟩ := h.ahead
    have hb := hpath.reaches.counted (counted_cursor hc)
    have hrest : s.tail = b.rest := htail
    rw [textsOutside, Cursor.textTo, cursor_left, cursor_rest, hrest, ← hb, Nat.add_sub_cancel, hc,
      List.take_left]
    rfl

theorem exists_stands {text : List Char} {more : List (List Char)} (hc : c.Counted)
    (hfuel : 64 * c.left + 256 ≤ fuel) (hahead : Ahead fuel c bodies)
    (hout : textsOutside c bodies = text :: more) :
    ∃ s : Setting, s.cursor ⟨text, text.length, 0⟩ = c ∧ s.above = c.row ∧
      s.Stands (64 * text.length + 256) fuel bodies ⟨text, text.length, 0⟩ := by
  obtain ⟨tail, htail⟩ : ∃ tail, tail = bodies.head?.elim [] fun body => body.1.rest := ⟨_, rfl⟩
  obtain ⟨hrest, hstarts, hinside⟩ : c.rest = text ++ tail ∧ StartsBody tail ∧
      ∃ e, Path 0 c 0 e ∧ e.left = tail.length := by
    subst htail
    cases bodies with
    | nil =>
      obtain ⟨rfl, -⟩ := List.cons.inj hout
      obtain ⟨e, hpath, hnil⟩ := hahead
      have hleft : e.left = 0 := by
        rw [hpath.reaches.counted hc, hnil]
        rfl
      exact ⟨(List.append_nil _).symm, by simp [StartsBody], e, hpath, hleft⟩
    | cons body bodies =>
      obtain ⟨b, e⟩ := body
      obtain ⟨rfl, -⟩ := List.cons.inj hout
      obtain ⟨hpath, hbrace, -⟩ := hahead
      have hstarts : StartsBody b.rest := fun ch hch =>
        Option.some.inj ((Option.mem_def.mp hch).symm.trans hbrace)
      exact ⟨(Cursor.textTo_append_rest hc hpath.reaches).symm, hstarts, b, hpath,
        hpath.reaches.counted hc⟩
  have hcursor : (Setting.mk tail c.row hstarts).cursor ⟨text, text.length, 0⟩ = c := by
    have hleft : c.left = text.length + tail.length := by rw [hc, hrest, List.length_append]
    simp only [cursor, ← hrest, ← hleft, Nat.zero_add]
  refine ⟨_, hcursor, rfl, ⟨rfl, ?_, Nat.le_refl _, ?_⟩, ?_, htail⟩
  · rw [Inside, hcursor]
    exact hinside
  · rw [hcursor]
    exact hfuel
  · rw [hcursor]
    exact hahead

end Setting

/-! ## Both sources -/

/-- Two sources have the same texts ahead outside their bodies. -/
structure SameOutside (fuel fuel' : Nat) (c c' : Cursor) (bodies bodies' : List (Cursor × Cursor)) :
    Prop where
  counted : c.Counted
  counted' : c'.Counted
  enough : 64 * c.left + 256 ≤ fuel
  enough' : 64 * c'.left + 256 ≤ fuel'
  ahead : Ahead fuel c bodies
  ahead' : Ahead fuel' c' bodies'
  outside : textsOutside c bodies = textsOutside c' bodies'

def SameSymbols (fuel fuel' : Nat) (span span' : Cursor × Cursor) : Prop :=
  ∀ doc, (readDeclaration fuel span.1 span.2).symbols doc =
    (readDeclaration fuel' span'.1 span'.2).symbols doc

theorem Setting.Shared.sameOutside {s s' : Setting} {depth fuel fuel' : Nat} {c d d' : Cursor}
    {bodies bodies' : List (Cursor × Cursor)} (h : Shared s s' depth fuel fuel' bodies bodies' c)
    (hout : (textsOutside d bodies).tail = (textsOutside d' bodies').tail) :
    SameOutside fuel fuel' (s.cursor c) (s'.cursor c) bodies bodies' :=
  ⟨counted_cursor h.first.placed.counted, counted_cursor h.second.placed.counted,
    h.first.placed.enough', h.second.placed.enough', h.first.ahead, h.second.ahead, by
      rw [h.first.textsOutside_eq d, h.second.textsOutside_eq d', hout]⟩

namespace SameOutside

variable {fuel fuel' : Nat} {c c' stop stop' : Cursor} {bodies bodies' : List (Cursor × Cursor)}
  {behind behind' : List (Piece (Cursor × Cursor))}

theorem exists_shared (h : SameOutside fuel fuel' c c' bodies bodies') :
    ∃ (s s' : Setting) (depth : Nat) (d : Cursor), c = s.cursor d ∧ c' = s'.cursor d ∧
      s.above = c.row ∧ s'.above = c'.row ∧
        Setting.Shared s s' depth fuel fuel' bodies bodies' d := by
  have hnever (c : Cursor) (bodies : List (Cursor × Cursor)) : textsOutside c bodies ≠ [] := by
    cases bodies <;> simp [textsOutside]
  obtain ⟨text, more, htexts⟩ := List.exists_cons_of_ne_nil (hnever c bodies)
  have hout := h.outside
  have hbodied : bodies.isEmpty = bodies'.isEmpty := by
    cases bodies with
    | nil =>
      cases bodies' with
      | nil => rfl
      | cons => exact absurd (List.cons.inj hout).2.symm (hnever _ _)
    | cons =>
      cases bodies' with
      | nil => exact absurd (List.cons.inj hout).2 (hnever _ _)
      | cons => rfl
  obtain ⟨s, hcursor, habove, hstands⟩ := Setting.exists_stands h.counted h.enough h.ahead htexts
  obtain ⟨s', hcursor', habove', hstands'⟩ :=
    Setting.exists_stands h.counted' h.enough' h.ahead' (hout ▸ htexts)
  exact ⟨s, s', _, _, hcursor.symm, hcursor'.symm, habove, habove', hstands, hstands', hbodied⟩

theorem rest_eq_nil_iff (h : SameOutside fuel fuel' c c' bodies bodies') :
    c.rest = [] ↔ c'.rest = [] := by
  obtain ⟨s, s', depth, d, rfl, rfl, -, -, hshared⟩ := h.exists_shared
  exact ⟨hshared.rest_eq_nil, hshared.symm.rest_eq_nil⟩

theorem gap (h : SameOutside fuel fuel' c c' bodies bodies') (pastLines : Bool) :
    ∃ (comments : List Comment) (d d' : Cursor) (rows : Nat),
      skipFrom pastLines c.left c = (comments.map fun comment => comment.lowered c.row, d) ∧
      skipFrom pastLines c'.left c' = (comments.map fun comment => comment.lowered c'.row, d') ∧
      d.row = rows + c.row ∧ d'.row = rows + c'.row ∧
        SameOutside fuel fuel' d d' bodies bodies' := by
  obtain ⟨s, s', depth, d, hcursor, hcursor', habove, habove', hshared⟩ := h.exists_shared
  have hout := congrArg List.tail h.outside
  rcases hskip : skipFrom pastLines d.left d with ⟨comments, e⟩
  obtain ⟨hgap, -⟩ := hshared.first.placed.gap hskip
  obtain ⟨hgap', -⟩ := hshared.second.placed.gap hskip
  rw [← hcursor, habove] at hgap
  rw [← hcursor', habove'] at hgap'
  exact ⟨comments, s.cursor e, s'.cursor e, e.row, hgap, hgap', congrArg (e.row + ·) habove,
    congrArg (e.row + ·) habove', (hshared.gap hskip).sameOutside hout⟩

theorem terminator (h : SameOutside fuel fuel' c c' bodies bodies') (hends : endsItem c = true) :
    (terminatorPieces c : List (Piece (Cursor × Cursor))) = terminatorPieces c' ∧
      ∃ rows, c.next.row = rows + c.row ∧ c'.next.row = rows + c'.row ∧
        SameOutside fuel fuel' c.next c'.next bodies bodies' := by
  obtain ⟨s, s', depth, d, hcursor, hcursor', habove, habove', hshared⟩ := h.exists_shared
  have hout := congrArg List.tail h.outside
  rw [hcursor, Setting.endsItem_cursor] at hends
  obtain ⟨hnext, -⟩ := hshared.first.placed.next hends
  obtain ⟨hnext', -⟩ := hshared.second.placed.next hends
  have hpieces (c : Cursor) (rows : Nat) :
      (terminatorPieces c : List (Piece (Cursor × Cursor))).map (Piece.lowered rows) =
        terminatorPieces c := by
    rw [terminatorPieces]
    split <;> rfl
  refine ⟨?_, d.next.row, ?_, ?_, ?_⟩
  · rw [hcursor, hcursor', Setting.terminatorPieces_cursor, Setting.terminatorPieces_cursor, hpieces,
      hpieces]
  · rw [← habove, hcursor, hnext, Setting.cursor_row]
  · rw [← habove', hcursor', hnext', Setting.cursor_row]
  · rw [hcursor, hcursor', hnext, hnext']
    exact (hshared.next hends).sameOutside hout

/-- What both sources read has the same symbols, and behind it the texts outside the bodies are the
same. -/
theorem item (h : SameOutside fuel fuel' c c' bodies bodies')
    (hstop : (topItem.ends fuel c).find? (continues fuel c) = some stop)
    (hstop' : (topItem.ends fuel' c').find? (continues fuel' c') = some stop')
    (hbehind : Behind fuel stop behind) (hbehind' : Behind fuel' stop' behind')
    (hbodies : (bodySpan? fuel c stop).toList ++ bodySpans fuel behind = bodies)
    (hbodies' : (bodySpan? fuel' c' stop').toList ++ bodySpans fuel' behind' = bodies') :
    SameSymbols fuel fuel' (c, stop) (c', stop') ∧
      SameOutside fuel fuel' stop stop' (bodySpans fuel behind) (bodySpans fuel' behind') := by
  obtain ⟨s, s', depth, d, rfl, rfl, -, -, hshared⟩ := h.exists_shared
  obtain ⟨k, hk, hcandidate, hcandidate', htaken⟩ :=
    hshared.exists_choice hstop hstop' hbehind hbehind' hbodies hbodies'
  have hsymbols := hshared.symbols_readDeclaration hk hcandidate hcandidate'
    (htaken.imp And.left fun ⟨l, _, hl, hl', _⟩ => ⟨l, hl, hl'⟩)
  refine ⟨hsymbols, ?_⟩
  have hout := congrArg List.tail h.outside
  rcases htaken with ⟨-, ⟨b, hbody⟩, b', hbody'⟩ | ⟨l, hlast, rfl, rfl, hnone, hnone'⟩
  · have hreach := Form.reaches_of_mem_ends (List.mem_of_find?_eq_some hstop)
    have hreach' := Form.reaches_of_mem_ends (List.mem_of_find?_eq_some hstop')
    have hle := hreach.left_le h.counted
    have hle' := hreach'.left_le h.counted'
    have henough := h.enough
    have henough' := h.enough'
    have hstopCounted := hreach.counted h.counted
    have hstopCounted' := hreach'.counted h.counted'
    have hfuel : 64 * stop.left + 256 ≤ fuel := by omega
    have hfuel' : 64 * stop'.left + 256 ≤ fuel' := by omega
    rw [hbody, hbody'] at hout
    exact ⟨hstopCounted, hstopCounted', hfuel, hfuel', hbehind.ahead hstopCounted hfuel,
      hbehind'.ahead hstopCounted' hfuel', hout⟩
  · rw [hnone, hnone']
    exact (hshared.last hk hlast).sameOutside hout

end SameOutside

mutual

/-- Sources with the same texts outside their bodies are read alike. -/
theorem Parsed.alike {fuel fuel' : Nat} {c c' : Cursor}
    {pieces pieces' : List (Piece (Cursor × Cursor))}
    (h : SameOutside fuel fuel' c c' (bodySpans fuel pieces) (bodySpans fuel' pieces')) :
    Parsed fuel c pieces → Parsed fuel' c' pieces' →
      Alike (SameSymbols fuel fuel') c.row c'.row pieces pieces'
  | .done _, .done _ => by
    obtain ⟨comments, d, d', rows, hgap, hgap', -⟩ := h.gap true
    rw [hgap, hgap']
    exact alike_comments _ _ comments
  | .done hend, .item hstart' _ _ => by
    obtain ⟨comments, d, d', rows, hgap, hgap', -, -, hskip⟩ := h.gap true
    rw [Cursor.skip, hgap] at hend
    rw [Cursor.skip, hgap'] at hstart'
    exact absurd (hskip.rest_eq_nil_iff.mp hend) hstart'
  | .item hstart _ _, .done hend' => by
    obtain ⟨comments, d, d', rows, hgap, hgap', -, -, hskip⟩ := h.gap true
    rw [Cursor.skip, hgap] at hstart
    rw [Cursor.skip, hgap'] at hend'
    exact absurd (hskip.rest_eq_nil_iff.mpr hend') hstart
  | .item hstart hstop hbehind, .item hstart' hstop' hbehind' => by
    obtain ⟨comments, d, d', rows, hgap, hgap', hrow, hrow', hskip⟩ := h.gap true
    have hd : c.skip = d := by rw [Cursor.skip, hgap]
    have hd' : c'.skip = d' := by rw [Cursor.skip, hgap']
    rw [hd] at hstop
    rw [hd'] at hstop'
    rw [bodySpans_item, bodySpans_item, hd, hd'] at hskip
    obtain ⟨hsymbols, hout⟩ := hskip.item hstop hstop' hbehind hbehind' rfl rfl
    have hitem : Alike (SameSymbols fuel fuel') c.row c'.row (.item (rows + c.row) (0 + _) _ :: _)
        (.item (rows + c'.row) (0 + _) _ :: _) := .item rows 0 hsymbols (hbehind.alike hout hbehind')
    rw [Nat.zero_add, Nat.zero_add, ← hrow, ← hrow'] at hitem
    rw [hgap, hgap', hd, hd']
    exact .comments comments hitem

theorem Behind.alike {fuel fuel' : Nat} {c c' : Cursor}
    {pieces pieces' : List (Piece (Cursor × Cursor))}
    (h : SameOutside fuel fuel' c c' (bodySpans fuel pieces) (bodySpans fuel' pieces')) :
    Behind fuel c pieces → Behind fuel' c' pieces' →
      Alike (SameSymbols fuel fuel') c.row c'.row pieces pieces'
  | .done _, .done _ => by
    obtain ⟨comments, d, d', rows, hgap, hgap', -⟩ := h.gap false
    rw [hgap, hgap']
    exact alike_comments _ _ comments
  | .done hend, .more hends' _ => by
    obtain ⟨comments, d, d', rows, hgap, hgap', -, -, hskip⟩ := h.gap false
    rw [Cursor.skipInLine, hgap] at hend
    rw [Cursor.skipInLine, hgap'] at hends'
    exact absurd (hskip.rest_eq_nil_iff.mp hend) (rest_ne_nil_of_endsItem hends')
  | .more hends _, .done hend' => by
    obtain ⟨comments, d, d', rows, hgap, hgap', -, -, hskip⟩ := h.gap false
    rw [Cursor.skipInLine, hgap] at hends
    rw [Cursor.skipInLine, hgap'] at hend'
    exact absurd (hskip.rest_eq_nil_iff.mpr hend') (rest_ne_nil_of_endsItem hends)
  | .more hends hrest, .more hends' hrest' => by
    obtain ⟨comments, d, d', rows, hgap, hgap', hrow, hrow', hskip⟩ := h.gap false
    have hd : c.skipInLine = d := by rw [Cursor.skipInLine, hgap]
    have hd' : c'.skipInLine = d' := by rw [Cursor.skipInLine, hgap']
    rw [bodySpans_more, bodySpans_more] at hskip
    obtain ⟨hpieces, more, hnext, hnext', hout⟩ := hskip.terminator (hd ▸ hends)
    rw [← hd, ← hd'] at hout
    have halike := hrest.alike hout hrest'
    rw [hd, hd', hnext, hnext', hrow, hrow'] at halike
    rw [hgap, hgap', hd, hd', ← hpieces, List.append_assoc, List.append_assoc]
    have hrows (row : Nat) : more + (rows + row) = row + (more + rows) := by omega
    rw [hrows, hrows] at halike
    exact .comments comments (.terminator d (.of_add (more + rows) halike))

end

/-! ## Outlines -/

theorem exists_pieces_of_goOutline {source path : String}
    (h : (goOutline source path).hasErrors = false) :
    ∃ pieces, topPieces (depthOf source.toList) Prod.mk ((Cursor.ofText source.toList).left + 1)
        (.ofText source.toList) = some pieces ∧
      (goOutline source path).symbols = (documented pieces).flatMap fun item =>
        (readDeclaration (depthOf source.toList) item.1.1 item.1.2).symbols item.2 := by
  obtain ⟨file, hfile, hsymbols⟩ := exists_file_of_goOutline h
  obtain ⟨pieces, hpieces, rfl⟩ := Option.map_eq_some_iff.mp hfile
  rw [map_topPieces] at hpieces
  obtain ⟨spans, hspans, rfl⟩ := Option.map_eq_some_iff.mp hpieces
  refine ⟨spans, hspans, ?_⟩
  have hdocumented := documentedFrom_map (fun span : Cursor × Cursor =>
    readDeclaration (depthOf source.toList) span.1 span.2) [] spans
  rw [hsymbols, File.symbols, documented]
  exact (congrArg _ hdocumented).trans (List.flatMap_map _ _ _)

theorem flatMap_eq_of_forall₂ {α β γ : Type} {R : α → β → Prop} {as : List α} {bs : List β}
    {f : α → List γ} {g : β → List γ} (h : List.Forall₂ R as bs)
    (hsame : ∀ a b, R a b → f a = g b) : as.flatMap f = bs.flatMap g := by
  induction h with
  | nil => rfl
  | cons hab _ ih => rw [List.flatMap_cons, List.flatMap_cons, hsame _ _ hab, ih]

/-- Two sources without mistakes that have the same texts outside the bodies of their functions and
methods have the same symbols. -/
theorem goOutline_without_bodies (source source' path path' : String)
    (h : (goOutline source path).hasErrors = false)
    (h' : (goOutline source' path').hasErrors = false)
    (hout : outsideBodies source.toList = outsideBodies source'.toList) :
    (goOutline source path).symbols = (goOutline source' path').symbols := by
  obtain ⟨pieces, hpieces, hsymbols⟩ := exists_pieces_of_goOutline h
  obtain ⟨pieces', hpieces', hsymbols'⟩ := exists_pieces_of_goOutline h'
  have hc := Cursor.counted_ofText source.toList
  have hc' := Cursor.counted_ofText source'.toList
  have hparsed := parsed_of_topPieces hc (Nat.lt_succ_self _) hpieces
  have hparsed' := parsed_of_topPieces hc' (Nat.lt_succ_self _) hpieces'
  have hfuel (text : List Char) : 64 * (Cursor.ofText text).left + 256 ≤ depthOf text := by
    rw [depthOf, depthBound]
    omega
  have htexts : textsOutside (.ofText source.toList) (bodySpans (depthOf source.toList) pieces) =
      textsOutside (.ofText source'.toList) (bodySpans (depthOf source'.toList) pieces') := by
    simp only [outsideBodies, bodiesOf, hpieces, hpieces', Option.map_some] at hout
    exact Option.some.inj hout
  have hsame : SameOutside _ _ _ _ _ _ :=
    ⟨hc, hc', hfuel _, hfuel _, hparsed.ahead hc (hfuel _), hparsed'.ahead hc' (hfuel _), htexts⟩
  have halike := hparsed.alike hsame hparsed'
  rw [hsymbols, hsymbols']
  refine flatMap_eq_of_forall₂ halike.documented fun item item' hitem => ?_
  rw [← hitem.2]
  exact hitem.1 item.2

def shortBodies : String :=
  "package p\n\nfunc F() \x7b\x7d // F\n\n// G adds one.\nfunc (t T) G(x int) int \x7b return x + 1 \x7d\nvar X = 1\n"

def longBodies : String :=
  "package p\n\nfunc F() \x7b\n\t// Again and again.\n\tfor \x7b\n\t\x7d\n\x7d // F\n\n// G adds one.\nfunc (t T) G(x int) int \x7b\n\tx++\n\treturn x\n\x7d\nvar X = 1\n"

theorem shortBodies_symbols_eq :
    (goOutline shortBodies "a.go").hasErrors = false ∧
      (goOutline longBodies "b.go").hasErrors = false ∧
      outsideBodies shortBodies.toList = outsideBodies longBodies.toList ∧
      (goOutline shortBodies "a.go").symbols = (goOutline longBodies "b.go").symbols := by
  have hshort : (goOutline shortBodies "a.go").hasErrors = false := by decide +kernel
  have hlong : (goOutline longBodies "b.go").hasErrors = false := by decide +kernel
  have hout : outsideBodies shortBodies.toList = outsideBodies longBodies.toList := by
    decide +kernel
  exact ⟨hshort, hlong, hout, goOutline_without_bodies shortBodies longBodies "a.go" "b.go" hshort
    hlong hout⟩

end SourceBundle.Go
