import SourceBundle.Proofs.SegmentPlaces

/-!
# The parts of a segment

Between two places of a segment the same declaration is read wherever the segment stands: its names
and texts are the same, and the rows of what it consists of are those of the segment, moved down.
-/

namespace SourceBundle.Go

/-! ## Texts and names -/

namespace Setting

variable {s : Setting} {fuel fuel' n m k : Nat} {c d stop : Cursor} {f : Form} {fs : List Form}

theorem left_beq_cursor (c d : Cursor) :
    ((s.cursor c).left == (s.cursor d).left) = (c.left == d.left) := by
  simp [beq_eq_decide]

namespace Placed

theorem partText_cursor (hc : s.Placed fuel fuel' n c) (d : Cursor) :
    partText (s.cursor c) (s.cursor d) = partText c d := by
  rw [partText, partText, left_beq_cursor, cursor_skip hc.counted hc.inside,
    cursor_textTo hc.skip.counted]

theorem partTexts_cursor {ds : List Cursor} (hc : s.Placed fuel fuel' n c)
    (hds : ∀ d ∈ ds, ∃ l, s.Placed fuel fuel' l d) :
    partTexts (s.cursor c) (ds.map s.cursor) = partTexts c ds := by
  induction ds generalizing c n with
  | nil => rfl
  | cons d ds ih =>
    obtain ⟨l, hd⟩ := hds d List.mem_cons_self
    rw [List.map_cons, partTexts, partTexts, hc.partText_cursor d,
      ih hd fun e he => hds e (List.mem_cons_of_mem d he)]

theorem textsTo_cursor (hc : s.Placed fuel fuel' (k + n) c) (hfs : Fit fs n m) (stop : Cursor) :
    textsTo fuel' fs (s.cursor c) (s.cursor stop) = textsTo fuel fs c stop := by
  rw [textsTo, textsTo, hc.readingTo_cursor hfs, Option.map_map]
  cases hreading : readingTo fuel fs c stop with
  | none => rfl
  | some ds =>
    have hmem : ds ∈ readings fuel fs c := List.mem_of_find?_eq_some hreading
    rw [Option.map_some, Option.map_some, Function.comp_apply,
      hc.partTexts_cursor (hc.of_mem_readings hfs hmem)]

theorem ends_cases (hc : s.Placed fuel fuel' (k + n) c) (hf : f.Fits n m)
    (hends : f.ends fuel' (s.cursor c) = (f.ends fuel c).map s.cursor) :
    (f.ends fuel c = [] ∧ f.ends fuel' (s.cursor c) = []) ∨
      ∃ d ds, f.ends fuel c = d :: ds ∧
        f.ends fuel' (s.cursor c) = s.cursor d :: ds.map s.cursor ∧
        c.Reaches d ∧ s.Placed fuel fuel' (k + m) d := by
  cases hlist : f.ends fuel c with
  | nil =>
    rw [hlist] at hends
    exact .inl ⟨rfl, hends⟩
  | cons d ds =>
    have hmem : d ∈ f.ends fuel c := by rw [hlist]; exact List.mem_cons_self
    rw [hlist] at hends
    exact .inr ⟨d, ds, rfl, hends, Form.reaches_of_mem_ends hmem, hc.of_mem_ends hf hmem⟩

theorem namesTo_cursor {count count' : Nat} (hc : s.Placed fuel fuel' n c) (hcount : c.left ≤ count)
    (hcount' : c.left ≤ count') (stop : Cursor) :
    namesTo fuel' count' (s.cursor c) (s.cursor stop) = namesTo fuel count c stop := by
  induction count generalizing count' c with
  | zero =>
    have hnone : (Form.name []).ends fuel c = [] := by
      rw [List.eq_nil_iff_forall_not_mem]
      intro d hd
      have := Form.left_lt_of_mem_ends hc.counted rfl hd
      omega
    cases count' with
    | zero => rfl
    | succ count' =>
      have hplace : s.Placed fuel fuel' (n + 0) c := hc
      have hends : (Form.name []).ends fuel' (s.cursor c) = [] := by
        rw [hplace.ends_of_quiet ⟨rfl, rfl, rfl⟩ rfl, hnone]
        rfl
      rw [namesTo, namesTo, hends]
  | succ count ih =>
    have hplace : s.Placed fuel fuel' (n + 0) c := hc
    have hname : (Form.name []).Fits 0 0 := ⟨rfl, rfl, rfl⟩
    rcases hplace.ends_cases hname (hplace.ends_of_quiet hname rfl) with
      ⟨hends, hends'⟩ | ⟨d, ds, hends, hends', hreach, hd⟩
    · rw [namesTo, hends]
      cases count' with
      | zero => rfl
      | succ count' => rw [namesTo, hends']
    · have hlt : d.left < c.left :=
        Form.left_lt_of_mem_ends hc.counted rfl (by rw [hends]; exact List.mem_cons_self)
      obtain ⟨count', rfl⟩ := Nat.exists_eq_add_of_lt (Nat.lt_of_lt_of_le hlt hcount')
      rw [namesTo, namesTo, hends, hends']
      dsimp only
      rw [hc.partText_cursor d, left_beq_cursor]
      have hcomma : (Form.punctuation ",").Fits 0 0 := ⟨rfl, rfl, rfl⟩
      rcases hd.ends_cases hcomma (hd.ends_of_quiet hcomma rfl) with
        ⟨hends, hends'⟩ | ⟨e, es, hends, hends', hreach', he⟩
      · rw [hends, hends']
      · have hle := hreach'.left_le hd.counted
        rw [hends, hends']
        dsimp only
        rw [ih he (by omega) (by omega)]

end Placed

/-! ## Members -/

theorem map_comment_lowered {α : Type} (rows : Nat) (comments : List Comment) :
    (comments.map fun c => c.lowered rows).map Piece.comment =
      (comments.map Piece.comment).map (Piece.lowered (α := α) rows) := by
  rw [List.map_map, List.map_map]
  rfl

theorem terminatorPieces_cursor {α : Type} (c : Cursor) :
    (terminatorPieces (s.cursor c) : List (Piece α)) =
      (terminatorPieces c).map (Piece.lowered s.above) := by
  have hline : ((s.cursor c).rest.head? == some '\n') = (c.rest.head? == some '\n') := by
    rw [Bool.eq_iff_iff, beq_iff_eq, beq_iff_eq]
    exact head?_cursor (by decide)
  rw [terminatorPieces, terminatorPieces, hline]
  split <;> rfl

end Setting

theorem findSome?_congr {α β : Type} {p q : α → Option β} {as : List α} (h : ∀ a ∈ as, p a = q a) :
    as.findSome? p = as.findSome? q := by
  induction as with
  | nil => rfl
  | cons a as ih =>
    rw [List.findSome?_cons, List.findSome?_cons, h a List.mem_cons_self,
      ih fun a' ha' => h a' (List.mem_cons_of_mem a ha')]

def itemPieces {α : Type} (value : Cursor → Cursor → α) (before : List Comment)
    (start stop : Cursor) : List (Piece α) :=
  before.map Piece.comment ++ .item start.row stop.row (value start stop) ::
    (skipFrom false stop.left stop).1.map Piece.comment

def memberRest {α : Type} (fuel : Nat) (form : Form) (member : Cursor → Cursor → α) (count : Nat)
    (before : List Comment) (start stop : Cursor) : Option (List (Piece α)) :=
  let here := itemPieces member before start stop
  if stop.skipInLine.rest.head? = some '\x7d' then some here
  else if endsItem stop.skipInLine then
    (memberPieces fuel form member count stop.skipInLine.next).map fun rest =>
      here ++ terminatorPieces stop.skipInLine ++ rest
  else none

theorem memberPieces_succ {α : Type} (fuel : Nat) (form : Form) (member : Cursor → Cursor → α)
    (count : Nat) (c : Cursor) :
    memberPieces fuel form member (count + 1) c =
      if c.skip.rest.head? = some '\x7d' then
        some ((skipFrom true c.left c).1.map .comment)
      else
        (form.ends fuel c.skip).findSome?
          (memberRest fuel form member count (skipFrom true c.left c).1 c.skip) := by
  rw [memberPieces, Cursor.skip]
  rcases skipFrom true c.left c with ⟨before, start⟩
  dsimp only
  split
  · next hrest => rw [hrest, List.head?_cons, if_pos rfl]
  · next hrest =>
    have hclose : start.rest.head? ≠ some '\x7d' := by
      intro hhead
      obtain ⟨cs, hcs⟩ := List.head?_eq_some_iff.mp hhead
      exact hrest cs hcs
    rw [if_neg hclose]
    congr 1
    funext stop
    rw [memberRest, itemPieces, Cursor.skipInLine]
    split
    · next hnext => rw [hnext, List.head?_cons, if_pos rfl]
    iterate 3
      · next hnext =>
        have hends : endsItem (skipFrom false stop.left stop).2 = true := by
          rw [endsItem, hnext]
          rfl
        rw [if_neg (by rw [hnext]; simp), if_pos hends]
    · next hbrace hline hsemicolon hnul =>
      have hclose : (skipFrom false stop.left stop).2.rest.head? ≠ some '\x7d' := by
        intro hhead
        obtain ⟨cs, hcs⟩ := List.head?_eq_some_iff.mp hhead
        exact hbrace cs hcs
      rw [if_neg hclose, if_neg (not_endsItem hline hsemicolon hnul)]

namespace Setting

variable {s : Setting} {fuel fuel' n m k : Nat} {c d start stop : Cursor} {f : Form}
  {fs : List Form}

theorem Placed.next (hc : s.Placed fuel fuel' n c) (hends : endsItem c = true) :
    (s.cursor c).next = s.cursor c.next ∧ s.Placed fuel fuel' n c.next ∧
      c.next.left < c.left := by
  have hne := rest_ne_nil_of_endsItem hends
  have hnext : (s.cursor c).next = s.cursor c.next := cursor_next hne hc.counted
  have hpath : Path n (s.cursor c) n (s.cursor c).next :=
    .of_endsItem ((endsItem_cursor c).trans hends)
  exact ⟨hnext, hc.of_path (Cursor.reaches_next c) (hnext ▸ hpath),
    Cursor.advance_left_lt hc.counted hne Nat.one_pos⟩

theorem Placed.itemPieces_cursor {α : Type} {value value' : Cursor → Cursor → α}
    (hstop : s.Placed fuel fuel' n stop)
    (hvalue : value' (s.cursor start) (s.cursor stop) = value start stop) (before : List Comment) :
    itemPieces value' (before.map fun comment => comment.lowered s.above) (s.cursor start)
        (s.cursor stop) =
      (itemPieces value before start stop).map (Piece.lowered s.above) := by
  rcases hskip : skipFrom false stop.left stop with ⟨behind, next⟩
  obtain ⟨hgap, -, -⟩ := hstop.gap hskip
  rw [itemPieces, itemPieces, hgap, hskip, hvalue, map_comment_lowered, map_comment_lowered,
    List.map_append, List.map_cons]
  rfl

theorem Placed.memberPieces_cursor {α : Type} {form : Form} {member member' : Cursor → Cursor → α}
    (hform : form.Fits 0 0)
    (hmember : ∀ start stop, s.Placed fuel fuel' (k + 1) start → stop ∈ form.ends fuel start →
      member' (s.cursor start) (s.cursor stop) = member start stop)
    {count count' : Nat} (hc : s.Placed fuel fuel' (k + 1) c) (hcount : c.left ≤ count)
    (hcount' : c.left ≤ count') :
    memberPieces fuel' form member' count' (s.cursor c) =
      (memberPieces fuel form member count c).map fun pieces =>
        pieces.map (Piece.lowered s.above) := by
  induction count generalizing count' c with
  | zero =>
    have hpos := Cursor.left_pos_of_rest_ne_nil hc.counted hc.rest_ne_nil
    omega
  | succ count ih =>
    have hpos := Cursor.left_pos_of_rest_ne_nil hc.counted hc.rest_ne_nil
    obtain ⟨count', rfl⟩ := Nat.exists_eq_add_of_le' (Nat.le_trans hpos hcount')
    rcases hskip : skipFrom true c.left c with ⟨before, start⟩
    obtain ⟨hgap, hstart, hreach⟩ := hc.gap hskip
    have hstartLeft := hreach.left_le hc.counted
    rw [memberPieces_succ, memberPieces_succ, Cursor.skip, Cursor.skip, hgap, hskip]
    dsimp only
    have hclose : (s.cursor start).rest.head? = some '\x7d' ↔ start.rest.head? = some '\x7d' :=
      head?_cursor (by decide)
    simp only [hclose]
    split
    · rw [Option.map_some, map_comment_lowered]
    rw [hstart.ends_inner hform, List.findSome?_map, List.map_findSome?]
    refine findSome?_congr fun stop hstop => ?_
    have hplace : s.Placed fuel fuel' (k + 1 + 0) start := hstart
    have hstopPlace : s.Placed fuel fuel' (k + 1) stop := hplace.of_mem_ends hform hstop
    have hstopLeft := (Form.reaches_of_mem_ends hstop).left_le hstart.counted
    have hnext := hstopPlace.skipInLine
    have hnextLeft := (Cursor.reaches_skipInLine stop).left_le hstopPlace.counted
    rw [Function.comp_apply, Function.comp_apply, memberRest, memberRest,
      cursor_skipInLine hstopPlace.counted hstopPlace.inside,
      hstopPlace.itemPieces_cursor (hmember start stop hstart hstop) before]
    generalize stop.skipInLine = next at hnext hnextLeft
    have hcloseNext : (s.cursor next).rest.head? = some '\x7d' ↔ next.rest.head? = some '\x7d' :=
      head?_cursor (by decide)
    simp only [hcloseNext, endsItem_cursor]
    split
    · rfl
    split
    · next hends =>
      obtain ⟨hbehind, hbehindPlace, hlt⟩ := hnext.next hends
      rw [hbehind, ih hbehindPlace (by omega) (by omega), terminatorPieces_cursor, Option.map_map,
        Option.map_map]
      congr 1
      funext rest
      simp
    · rfl

theorem fits_name (reserved : List String) : (Form.name reserved).Fits 0 0 := ⟨rfl, rfl, rfl⟩

theorem fits_type (closing : Closing) : (typeForm closing).Fits 0 0 := ⟨rfl, rfl, rfl⟩

theorem fits_fieldTag : fieldTag.Fits 0 0 := ⟨rfl, rfl, rfl⟩

theorem Placed.readingTo_cases (hc : s.Placed fuel fuel' (k + n) c) (hfs : Fit fs n m)
    (stop : Cursor) :
    (readingTo fuel fs c stop = none ∧ readingTo fuel' fs (s.cursor c) (s.cursor stop) = none) ∨
      ∃ ds, readingTo fuel fs c stop = some ds ∧
        readingTo fuel' fs (s.cursor c) (s.cursor stop) = some (ds.map s.cursor) ∧
        ds ∈ readings fuel fs c ∧ ds.length = fs.length ∧
        ∀ d ∈ ds, ∃ l, s.Placed fuel fuel' l d := by
  have hsource := hc.readingTo_cursor hfs stop
  cases hreading : readingTo fuel fs c stop with
  | none =>
    rw [hreading] at hsource
    exact .inl ⟨rfl, hsource⟩
  | some ds =>
    have hmem : ds ∈ readings fuel fs c := List.mem_of_find?_eq_some hreading
    rw [hreading] at hsource
    exact .inr ⟨ds, rfl, hsource, hmem, length_of_mem_readings hmem, hc.of_mem_readings hfs hmem⟩

theorem Placed.namesFrom (hc : s.Placed fuel fuel' n c) (stop : Cursor) :
    namesTo fuel' (s.cursor c).left (s.cursor c) (s.cursor stop) = namesTo fuel c.left c stop :=
  hc.namesTo_cursor (Nat.le_refl _) (by rw [cursor_left]; omega) stop

theorem Placed.readField_cursor (hc : s.Placed fuel fuel' n c) (stop : Cursor) :
    readField fuel' (s.cursor c) (s.cursor stop) = readField fuel c stop := by
  have hplace : s.Placed fuel fuel' (n + 0) c := hc
  have hnamed : Fit [Form.commaList (.name []), typeForm .lineEndOrCase, fieldTag] 0 0 :=
    .cons ⟨rfl, rfl, rfl⟩ (.cons (fits_type _) (.cons fits_fieldTag .nil))
  have hembedded : Fit [embeddedField, fieldTag] 0 0 :=
    .cons ⟨rfl, rfl, rfl⟩ (.cons fits_fieldTag .nil)
  rw [readField, readField]
  rcases hplace.readingTo_cases hnamed stop with
    ⟨hnone, hnone'⟩ | ⟨ds, hsome, hsome', -, hlength, hplaces⟩
  · rw [hnone, hnone']
    rcases hplace.readingTo_cases hembedded stop with ⟨hnone, hnone'⟩ | ⟨ds, hsome, hsome', -⟩
    · rw [hnone, hnone']
    · rw [hsome, hsome']
      cases ds with
      | nil => rfl
      | cons d ds => exact congrArg _ (hc.partText_cursor d)
  · obtain ⟨d, e, x, rfl⟩ := List.length_eq_three.mp hlength
    obtain ⟨l, hd⟩ := hplaces d (by simp)
    rw [hsome, hsome']
    simp only [List.map_cons, List.map_nil]
    rw [hc.namesFrom d, hd.partText_cursor e]

theorem Placed.readInterfaceMember_cursor (hc : s.Placed fuel fuel' n c) (stop : Cursor) :
    readInterfaceMember fuel' (s.cursor c) (s.cursor stop) = readInterfaceMember fuel c stop := by
  have hplace : s.Placed fuel fuel' (n + 0) c := hc
  have hmethod : Fit [.name typeWords, .sameLine (.phrase .parameters), result .lineEndOrCase []]
      0 0 :=
    .cons (fits_name _) (.cons ⟨rfl, rfl, rfl⟩ (.cons ⟨rfl, rfl, rfl⟩ .nil))
  rw [readInterfaceMember, readInterfaceMember, hplace.textsTo_cursor hmethod]

end Setting

/-! ## The shape of a type -/

namespace Form

def refuses (w : String) : Form → Bool
  | .word v => v != w
  | .name reserved => reserved.contains w
  | .sign s _ => s.toList.head?.isSome && s.toList.head? != w.toList.head?
  | .seq f _ | .weighted _ f => f.refuses w
  | .alt f g => f.refuses w && g.refuses w
  | _ => false

variable {fuel : Nat} {f : Form} {c d : Cursor} {w : String}

theorem ends_of_refuses (hw : (Form.word w).tokenEnds c.skip ≠ []) (hf : f.refuses w = true) :
    f.ends fuel c = [] := by
  have hword : wordLength c.skip.rest ≠ 0 ∧
      c.skip.rest.take (wordLength c.skip.rest) = w.toList := by
    rw [tokenEnds] at hw
    split at hw
    · next h => simpa using h
    · exact absurd rfl hw
  induction fuel generalizing f with
  | zero => rfl
  | succ fuel ih =>
    cases f with
    | word v =>
      have hne : ¬w.toList = v.toList := fun h =>
        absurd (String.toList_inj.mp h).symm (by simpa [refuses] using hf)
      simp [ends, tokenEnds, hword.2, hne]
    | name reserved =>
      have hmem : w ∈ reserved := by simpa [refuses] using hf
      simp [ends, tokenEnds, hword.2, hmem]
    | sign s longer =>
      have hnone : c.skip.passSign s = none := by
        rw [Cursor.passSign, if_neg]
        intro hprefix
        obtain ⟨more, hmore⟩ := List.isPrefixOf_iff_prefix.mp hprefix
        have hhead : c.skip.rest.head? = w.toList.head? := by
          rw [← hword.2, List.head?_take, if_neg hword.1]
        cases hs : s.toList with
        | nil => simp [refuses, hs] at hf
        | cons ch cs =>
          rw [hs] at hmore
          rw [← hmore, List.cons_append, List.head?_cons] at hhead
          simp [refuses, hs, ← hhead] at hf
      simp [ends, tokenEnds, hnone]
    | seq f g =>
      have hf : f.refuses w = true := hf
      rw [ends, ih hf]
      rfl
    | weighted n f =>
      have hf : f.refuses w = true := hf
      rw [ends, ih hf]
    | alt f g =>
      obtain ⟨hf, hg⟩ := Bool.and_eq_true_iff.mp hf
      rw [ends, ih hf, ih hg]
      rfl
    | _ => cases hf

theorem exists_of_mem_ends_oneOf {fs : List Form} (h : d ∈ (oneOf fs).ends fuel c) :
    fs = [] ∨ ∃ f ∈ fs, ∃ fuel', d ∈ f.ends fuel' c := by
  induction fs generalizing fuel with
  | nil => exact .inl rfl
  | cons f fs ih =>
    cases fs with
    | nil => exact .inr ⟨f, List.mem_cons_self, fuel, h⟩
    | cons g fs =>
      cases fuel with
      | zero => cases h
      | succ fuel =>
        rcases Cursor.mem_union h with hd | hd
        · exact .inr ⟨f, List.mem_cons_self, fuel, hd⟩
        · rcases ih hd with hnil | ⟨f', hf', fuel', hd⟩
          · cases hnil
          · exact .inr ⟨f', List.mem_cons_of_mem f hf', fuel', hd⟩

theorem exists_of_mem_ends_seq {g : Form} (h : d ∈ (Form.seq f g).ends fuel c) :
    ∃ fuel' e, e ∈ f.ends fuel' c ∧ d ∈ g.ends fuel' e := by
  cases fuel with
  | zero => cases h
  | succ fuel =>
    rcases Cursor.mem_foldl_union h with hd | ⟨e, he, hd⟩
    · cases hd
    · exact ⟨fuel, e, he, hd⟩

theorem brace_of_mem_type (hw : w = "struct" ∨ w = "interface")
    (hword : (Form.word w).tokenEnds c.skip ≠ [])
    (h : d ∈ (typeForm .lineEndOrCase).ends fuel c) :
    ∃ e ∈ (Form.word w).tokenEnds c.skip, ∃ b ∈ (punctuation "\x7b").tokenEnds e.skip,
      b.Reaches d := by
  have hkinds : ∀ f ∈ [namedType .lineEndOrCase typeWords .nothing,
      .seq (punctuation "*") (.phrase (.type .lineEndOrCase .nothing)), structType, interfaceType,
      sliceType .lineEndOrCase, arrayType .lineEndOrCase, mapType .lineEndOrCase,
      channelType .lineEndOrCase, functionType .lineEndOrCase, negatedType .lineEndOrCase,
      negatedGeneric .lineEndOrCase, parenthesizedType .nothing],
      f.refuses w = true ∨ ∃ member, f = .seq (.word w) (memberList member) := by
    simp only [List.forall_mem_cons]
    rcases hw with rfl | rfl
    · exact ⟨.inl rfl, .inl rfl, .inr ⟨_, rfl⟩, .inl rfl, .inl rfl, .inl rfl, .inl rfl, .inl rfl,
        .inl rfl, .inl rfl, .inl rfl, .inl rfl, by simp⟩
    · exact ⟨.inl rfl, .inl rfl, .inl rfl, .inr ⟨_, rfl⟩, .inl rfl, .inl rfl, .inl rfl, .inl rfl,
        .inl rfl, .inl rfl, .inl rfl, .inl rfl, by simp⟩
  cases fuel with
  | zero => cases h
  | succ fuel =>
    rcases exists_of_mem_ends_oneOf h with hnil | ⟨f, hf, fuel', hd⟩
    · cases hnil
    · rcases hkinds f hf with hrefuses | ⟨member, rfl⟩
      · rw [ends_of_refuses hword hrefuses] at hd
        cases hd
      · obtain ⟨fuel₁, e, he, hbody⟩ := exists_of_mem_ends_seq hd
        obtain ⟨fuel₂, b, hb, hrest⟩ := exists_of_mem_ends_seq hbody
        cases fuel₁ with
        | zero => cases he
        | succ fuel₁ =>
          cases fuel₂ with
          | zero => cases hb
          | succ fuel₂ => exact ⟨e, he, b, hb, reaches_of_mem_ends hrest⟩

end Form

namespace Setting

variable {s : Setting} {fuel fuel' n m k : Nat} {c d start stop : Cursor} {f : Form}
  {fs : List Form}

theorem eq_of_mem_tokenEnds {e : Cursor} (hd : d ∈ f.tokenEnds c) (he : e ∈ f.tokenEnds c) :
    d = e := by
  have hlength := f.length_tokenEnds_le c
  match hends : f.tokenEnds c, hlength with
  | [], _ => simp [hends] at hd
  | [x], _ =>
    rw [hends, List.mem_singleton] at hd he
    rw [hd, he]

theorem Placed.readings_brace {w : String} (hc : s.Placed fuel fuel' n c)
    (hw : w = "struct" ∨ w = "interface") (htype : d ∈ (typeForm .lineEndOrCase).ends fuel c) :
    readings fuel' [.word w, Form.punctuation "\x7b"] (s.cursor c) =
      (readings fuel [.word w, Form.punctuation "\x7b"] c).map fun ds => ds.map s.cursor := by
  have hplace : s.Placed fuel fuel' (n + 0) c := hc
  have hword : (Form.word w).Fits 0 0 := ⟨rfl, rfl, rfl⟩
  have hbrace : (Form.punctuation "\x7b").Fits 0 1 := ⟨rfl, rfl, rfl⟩
  have hpositive : 0 < fuel ∧ 0 < fuel' := by
    have := hc.enough
    have := hc.enough'
    omega
  obtain ⟨fuel, rfl⟩ := Nat.exists_eq_add_of_le' hpositive.1
  obtain ⟨fuel', rfl⟩ := Nat.exists_eq_add_of_le' hpositive.2
  rw [← hplace.filter_readings (.cons hword (.cons hbrace .nil))]
  refine (List.filter_eq_self.mpr fun ds hds => ?_).symm
  refine near_of_near_last (counted_cursor hc.counted) hds ?_
  obtain ⟨a, as, rfl, ha, has⟩ := exists_of_mem_readings_cons hds
  obtain ⟨b, bs, rfl, hb, hbs⟩ := exists_of_mem_readings_cons has
  obtain rfl : bs = [] := List.mem_singleton.mp hbs
  rw [hplace.ends_of_quiet hword rfl] at ha
  obtain ⟨e, he, rfl⟩ := List.mem_map.mp ha
  have htoken : e ∈ (Form.word w).tokenEnds c.skip := he
  obtain ⟨e', he', b', hb', -⟩ :=
    Form.brace_of_mem_type hw (List.ne_nil_of_mem htoken) htype
  obtain rfl := eq_of_mem_tokenEnds he' htoken
  have hsource : s.cursor b' ∈ (Form.punctuation "\x7b").tokenEnds (s.cursor e').skip :=
    (hplace.of_mem_ends hword he).mem_ends hbrace hb'
  have hb : b ∈ (Form.punctuation "\x7b").tokenEnds (s.cursor e').skip := hb
  obtain rfl : s.cursor b' = b := eq_of_mem_tokenEnds hsource hb
  exact near_cursor

theorem Placed.readShape_cursor (hc : s.Placed fuel fuel' n c)
    (htype : d ∈ (typeForm .lineEndOrCase).ends fuel c) :
    readShape fuel' (s.cursor c) = (readShape fuel c).lowered s.above := by
  have hplace : s.Placed fuel fuel' (n + 0) c := hc
  have hbehind {w : String} {ds : List Cursor} {rest : List (List Cursor)}
      (h : readings fuel [.word w, Form.punctuation "\x7b"] c = ds :: rest) :
      ∃ a b, ds = [a, b] ∧ s.Placed fuel fuel' (n + 1) b := by
    have hmem : ds ∈ readings fuel [.word w, Form.punctuation "\x7b"] c := by
      rw [h]
      exact List.mem_cons_self
    obtain ⟨a, as, rfl, ha, has⟩ := exists_of_mem_readings_cons hmem
    obtain ⟨b, bs, rfl, hb, hbs⟩ := exists_of_mem_readings_cons has
    obtain rfl : bs = [] := List.mem_singleton.mp hbs
    have hword : s.Placed fuel fuel' (n + 0) a := hplace.of_mem_ends ⟨rfl, rfl, rfl⟩ ha
    exact ⟨a, b, rfl, hword.of_mem_ends ⟨rfl, rfl, rfl⟩ hb⟩
  have hmembers {α : Type} {form : Form} (hform : form.Fits 0 0)
      {member member' : Cursor → Cursor → α} {b : Cursor} (hb : s.Placed fuel fuel' (n + 1) b)
      (hmember : ∀ start stop, s.Placed fuel fuel' (n + 1) start →
        member' (s.cursor start) (s.cursor stop) = member start stop) :
      (memberPieces fuel' form member' (s.cursor b).left (s.cursor b)).getD [] =
        ((memberPieces fuel form member b.left b).getD []).map (Piece.lowered s.above) := by
    rw [hb.memberPieces_cursor hform (fun start stop hstart _ => hmember start stop hstart)
      (Nat.le_refl _) (by rw [cursor_left]; omega)]
    cases memberPieces fuel form member b.left b <;> rfl
  have hfield : field.Fits 0 0 := ⟨rfl, rfl, rfl⟩
  have helement : interfaceElement.Fits 0 0 := ⟨rfl, rfl, rfl⟩
  rw [readShape, readShape, hc.readings_brace (.inl rfl) htype,
    hc.readings_brace (.inr rfl) htype]
  cases hstruct : readings fuel [.word "struct", Form.punctuation "\x7b"] c with
  | cons ds rest =>
    obtain ⟨a, b, rfl, hb⟩ := hbehind hstruct
    exact congrArg TypeShape.struct
      (hmembers hfield hb fun start stop hstart => hstart.readField_cursor stop)
  | nil =>
    cases hinterface : readings fuel [.word "interface", Form.punctuation "\x7b"] c with
    | cons ds rest =>
      obtain ⟨a, b, rfl, hb⟩ := hbehind hinterface
      exact congrArg TypeShape.interface
        (hmembers helement hb fun start stop hstart => hstart.readInterfaceMember_cursor stop)
    | nil => rfl

/-! ## Specifications -/

theorem Placed.isArrayLength_cursor (hc : s.Placed fuel fuel' n c) (grouped : Bool)
    (stop : Cursor) :
    isArrayLength fuel' grouped (s.cursor c) (s.cursor stop) =
      isArrayLength fuel grouped c stop := by
  have hplace : s.Placed fuel fuel' (n + 0) c := hc
  have harray : arrayLength.Fits 0 0 := ⟨rfl, rfl, rfl⟩
  have hparameters : (typeParameters operandWords).Fits 0 0 := ⟨rfl, rfl, rfl⟩
  rw [isArrayLength, isArrayLength, hplace.weight?_cursor harray, hplace.weight?_cursor hparameters]

theorem Placed.readTypeSpec_cursor (hc : s.Placed fuel fuel' n c) (grouped : Bool)
    (stop : Cursor) :
    readTypeSpec fuel' grouped (s.cursor c) (s.cursor stop) =
      (readTypeSpec fuel grouped c stop).map (TypeSpec.lowered s.above) := by
  have hplace : s.Placed fuel fuel' (n + 0) c := hc
  have hgeneric : Fit [.name [], typeParameters operandWords, typeForm .lineEndOrCase] 0 0 :=
    .cons (fits_name _) (.cons ⟨rfl, rfl, rfl⟩ (.cons (fits_type _) .nil))
  have hplain : Fit [.name [], Form.optional (Form.punctuation "="), typeForm .lineEndOrCase] 0 0 :=
    .cons (fits_name _) (.cons ⟨rfl, rfl, rfl⟩ (.cons (fits_type _) .nil))
  have htype {f g : Form} {d e x : Cursor}
      (h : [d, e, x] ∈ readings fuel [f, g, typeForm .lineEndOrCase] c) :
      x ∈ (typeForm .lineEndOrCase).ends fuel e := by
    obtain ⟨_, _, ⟨⟩, -, hfirst⟩ := exists_of_mem_readings_cons h
    obtain ⟨_, _, ⟨⟩, -, hsecond⟩ := exists_of_mem_readings_cons hfirst
    obtain ⟨_, _, ⟨⟩, hthird, -⟩ := exists_of_mem_readings_cons hsecond
    exact hthird
  rw [readTypeSpec, readTypeSpec]
  rcases hplace.readingTo_cases hgeneric stop with
    ⟨hnone, hnone'⟩ | ⟨ds, hsome, hsome', hmem, hlength, hplaces⟩
  · rw [hnone, hnone']
    dsimp only
    rcases hplace.readingTo_cases hplain stop with
      ⟨hnone, hnone'⟩ | ⟨ds, hsome, hsome', hmem, hlength, hplaces⟩
    · rw [hnone, hnone']
      rfl
    · obtain ⟨d, e, x, rfl⟩ := List.length_eq_three.mp hlength
      obtain ⟨l, he⟩ := hplaces e (by simp)
      rw [hsome, hsome']
      simp only [List.map_cons, List.map_nil]
      rw [hc.partText_cursor d, he.readShape_cursor (htype hmem)]
      rfl
  · obtain ⟨d, e, x, rfl⟩ := List.length_eq_three.mp hlength
    obtain ⟨l, hd⟩ := hplaces d (by simp)
    obtain ⟨l', he⟩ := hplaces e (by simp)
    rw [hsome, hsome']
    simp only [List.map_cons, List.map_nil]
    rw [hc.partText_cursor d, hd.isArrayLength_cursor grouped e, he.readShape_cursor (htype hmem)]
    split <;> rfl

theorem Placed.readValueSpec_cursor (hc : s.Placed fuel fuel' n c) (stop : Cursor) :
    readValueSpec fuel' (s.cursor c) (s.cursor stop) = readValueSpec fuel c stop := by
  have hplace : s.Placed fuel fuel' (n + 0) c := hc
  have hnames : (Form.commaList (.name [])).Fits 0 0 := ⟨rfl, rfl, rfl⟩
  have htyped : Fit [Form.commaList (.name []), typeForm .nothing, values] 0 0 :=
    .cons hnames (.cons (fits_type _) (.cons ⟨rfl, rfl, rfl⟩ .nil))
  have hbare : Fit [Form.commaList (.name []), typeForm .lineEndOrCase] 0 0 :=
    .cons hnames (.cons (fits_type _) .nil)
  have hvalued : Fit [Form.commaList (.name []), Form.optional values] 0 0 :=
    .cons hnames (.cons ⟨rfl, rfl, rfl⟩ .nil)
  rw [readValueSpec, readValueSpec]
  rcases hplace.readingTo_cases htyped stop with
    ⟨hnone, hnone'⟩ | ⟨ds, hsome, hsome', -, hlength, hplaces⟩
  · rw [hnone, hnone']
    dsimp only
    rcases hplace.readingTo_cases hbare stop with
      ⟨hnone, hnone'⟩ | ⟨ds, hsome, hsome', -, hlength, hplaces⟩
    · rw [hnone, hnone']
      dsimp only
      rcases hplace.readingTo_cases hvalued stop with
        ⟨hnone, hnone'⟩ | ⟨ds, hsome, hsome', -, hlength, -⟩
      · rw [hnone, hnone']
      · obtain ⟨d, e, rfl⟩ := List.length_eq_two.mp hlength
        rw [hsome, hsome']
        simp only [List.map_cons, List.map_nil]
        rw [hc.namesFrom d]
    · obtain ⟨d, e, rfl⟩ := List.length_eq_two.mp hlength
      obtain ⟨l, hd⟩ := hplaces d (by simp)
      rw [hsome, hsome']
      simp only [List.map_cons, List.map_nil]
      rw [hc.namesFrom d, hd.partText_cursor e]
  · obtain ⟨d, e, x, rfl⟩ := List.length_eq_three.mp hlength
    obtain ⟨l, hd⟩ := hplaces d (by simp)
    rw [hsome, hsome']
    simp only [List.map_cons, List.map_nil]
    rw [hc.namesFrom d, hd.partText_cursor e]

def asPair : List Cursor → Option (Cursor × Cursor)
  | [d, e] => some (d, e)
  | _ => none

theorem readGroup_succ {α : Type} (spec : Form) (read : Cursor → Cursor → Option α) (count : Nat)
    (c : Cursor) :
    readGroup fuel spec read (count + 1) c =
      ((readings fuel [spec, .terminator] c).filterMap asPair).head?.elim [] fun p =>
        (read c p.1).toList ++ readGroup fuel spec read count p.2 := rfl

theorem filterMap_asPair (readings : List (List Cursor)) :
    (readings.map fun ds => ds.map s.cursor).filterMap asPair =
      (readings.filterMap asPair).map fun p => (s.cursor p.1, s.cursor p.2) := by
  rw [List.filterMap_map, List.map_filterMap]
  congr 1
  funext ds
  match ds with
  | [] | [_] | [_, _] | _ :: _ :: _ :: _ => rfl

theorem Placed.readGroup_cursor {α : Type} {spec : Form} {read read' : Cursor → Cursor → Option α}
    {moved : α → α} (hspec : spec.Fits 0 0)
    (hread : ∀ start stop, s.Placed fuel fuel' (k + 1) start →
      read' (s.cursor start) (s.cursor stop) = (read start stop).map moved)
    {count count' : Nat} (hc : s.Placed fuel fuel' (k + 1) c) (hcount : c.left ≤ count)
    (hcount' : c.left ≤ count') :
    readGroup fuel' spec read' count' (s.cursor c) = (readGroup fuel spec read count c).map moved := by
  induction count generalizing count' c with
  | zero =>
    have hpos := Cursor.left_pos_of_rest_ne_nil hc.counted hc.rest_ne_nil
    omega
  | succ count ih =>
    have hpos := Cursor.left_pos_of_rest_ne_nil hc.counted hc.rest_ne_nil
    obtain ⟨count', rfl⟩ := Nat.exists_eq_add_of_le' (Nat.le_trans hpos hcount')
    have hterminator : Form.terminator.Fits 0 0 := ⟨rfl, rfl, rfl⟩
    have hforms : Fit [spec, .terminator] 0 0 := .cons hspec (.cons hterminator .nil)
    rw [readGroup_succ, readGroup_succ, hc.readings_inner hforms, filterMap_asPair, List.head?_map]
    cases hfirst : ((readings fuel [spec, .terminator] c).filterMap asPair).head? with
    | none => rfl
    | some p =>
      obtain ⟨ds, hds, hpair⟩ := List.mem_filterMap.mp (List.mem_of_head? hfirst)
      obtain ⟨d, es, rfl, hd, hes⟩ := exists_of_mem_readings_cons hds
      obtain ⟨e, _, rfl, he, hnil⟩ := exists_of_mem_readings_cons hes
      obtain rfl := List.mem_singleton.mp hnil
      obtain rfl := Option.some.inj hpair
      have hplace : s.Placed fuel fuel' (k + 1 + 0) c := hc
      have hdPlace : s.Placed fuel fuel' (k + 1 + 0) d := hplace.of_mem_ends hspec hd
      have hePlace : s.Placed fuel fuel' (k + 1) e := hdPlace.of_mem_ends hterminator he
      have hdLeft := (Form.reaches_of_mem_ends hd).left_le hc.counted
      have heLeft := Form.left_lt_of_mem_ends hdPlace.counted rfl he
      simp only [Option.map_some, Option.elim_some]
      rw [hread c d hc, ih hePlace (by omega) (by omega), List.map_append]
      cases read c d <;> rfl

theorem Placed.readSpecs_cursor {α : Type} {spec : Form}
    {read read' : (grouped : Bool) → (c stop : Cursor) → Option α} {moved : α → α}
    (hspec : spec.Fits 0 0)
    (hread : ∀ l grouped start stop, s.Placed fuel fuel' l start →
      read' grouped (s.cursor start) (s.cursor stop) = (read grouped start stop).map moved)
    (hc : s.Placed fuel fuel' n c) (stop : Cursor) :
    readSpecs fuel' spec read' (s.cursor c) (s.cursor stop) =
      (readSpecs fuel spec read c stop).map moved := by
  have hplace : s.Placed fuel fuel' (n + 0) c := hc
  have hopen : (Form.punctuation "(").Fits 0 1 := ⟨rfl, rfl, rfl⟩
  rw [readSpecs, readSpecs]
  rcases hplace.ends_cases hopen (hplace.ends_of_quiet hopen rfl) with
    ⟨hends, hends'⟩ | ⟨d, ds, hends, hends', -, hd⟩
  · rw [hends, hends']
    dsimp only
    rw [hread n false c stop hc]
    cases read false c stop <;> rfl
  · rw [hends, hends']
    exact hd.readGroup_cursor hspec (hread _ true) (Nat.le_refl _) (by rw [cursor_left]; omega)

/-! ## Functions -/

def receiverTail : Form :=
  Form.chain [.many (.seq (Form.punctuation ",") parameter), Form.maybeComma, Form.punctuation ")"]

theorem Placed.readReceiverType_cursor {count count' : Nat} (hc : s.Placed fuel fuel' (k + 1) c)
    (hcount : c.left ≤ count) (hcount' : c.left ≤ count') (stop : Cursor) :
    readReceiverType fuel' count' (s.cursor c) (s.cursor stop) =
      readReceiverType fuel count c stop := by
  induction count generalizing count' c with
  | zero =>
    have hpos := Cursor.left_pos_of_rest_ne_nil hc.counted hc.rest_ne_nil
    omega
  | succ count ih =>
    have hpos := Cursor.left_pos_of_rest_ne_nil hc.counted hc.rest_ne_nil
    obtain ⟨count', rfl⟩ := Nat.exists_eq_add_of_le' (Nat.le_trans hpos hcount')
    have htype : (typeForm .nothing).Fits 1 1 := ⟨rfl, rfl, rfl⟩
    have htail : receiverTail.Fits 1 0 := ⟨rfl, rfl, rfl⟩
    have hcomma : (Form.punctuation ",").Fits 1 1 := ⟨rfl, rfl, rfl⟩
    have hparameter : parameter.Fits 1 1 := ⟨rfl, rfl, rfl⟩
    have hnamed : Fit [parameterNames, typeForm .nothing, receiverTail] 1 0 :=
      .cons ⟨rfl, rfl, rfl⟩ (.cons htype (.cons htail .nil))
    have hbare : Fit [typeForm .nothing, receiverTail] 1 0 := .cons htype (.cons htail .nil)
    have hlater : Fit [parameter, Form.punctuation ",", Form.seq parameter receiverTail] 1 0 :=
      .cons hparameter (.cons hcomma (.cons ⟨rfl, rfl, rfl⟩ .nil))
    rw [readReceiverType, readReceiverType, ← receiverTail]
    rcases hc.readingTo_cases hnamed stop with
      ⟨hnone, hnone'⟩ | ⟨ds, hsome, hsome', -, hlength, hplaces⟩
    · rw [hnone, hnone']
      dsimp only
      rcases hc.readingTo_cases hbare stop with
        ⟨hnone, hnone'⟩ | ⟨ds, hsome, hsome', -, hlength, hplaces⟩
      · rw [hnone, hnone']
        dsimp only
        rcases hc.readingTo_cases hlater stop with
          ⟨hnone, hnone'⟩ | ⟨ds, hsome, hsome', hmem, hlength, -⟩
        · rw [hnone, hnone']
        · obtain ⟨d, e, x, rfl⟩ := List.length_eq_three.mp hlength
          obtain ⟨_, _, ⟨⟩, hd, hbehind⟩ := exists_of_mem_readings_cons hmem
          obtain ⟨_, _, ⟨⟩, he, -⟩ := exists_of_mem_readings_cons hbehind
          have hdPlace : s.Placed fuel fuel' (k + 1) d := hc.of_mem_ends hparameter hd
          have hePlace : s.Placed fuel fuel' (k + 1) e := hdPlace.of_mem_ends hcomma he
          have hdLeft := (Form.reaches_of_mem_ends hd).left_le hc.counted
          have heLeft := Form.left_lt_of_mem_ends hdPlace.counted rfl he
          rw [hsome, hsome']
          exact ih hePlace (by omega) (by omega)
      · obtain ⟨d, e, rfl⟩ := List.length_eq_two.mp hlength
        rw [hsome, hsome']
        simp only [List.map_cons, List.map_nil]
        rw [hc.partText_cursor d]
    · obtain ⟨d, e, x, rfl⟩ := List.length_eq_three.mp hlength
      obtain ⟨l, hd⟩ := hplaces d (by simp)
      rw [hsome, hsome']
      simp only [List.map_cons, List.map_nil]
      rw [hd.partText_cursor e]

end Setting

def functionOf (c : Cursor) (ds : List Cursor) : Option Declaration :=
  match partTexts c ds with
  | [_, name, typeParameters, parameters, result, body] =>
    some (.function name ⟨typeParameters, parameters, result, body⟩)
  | _ => none

def receiverTypeOf (fuel : Nat) (c stop : Cursor) : Option (List Char) :=
  ((Form.punctuation "(").ends fuel c).head?.bind fun opened =>
    readReceiverType fuel opened.left opened stop

def methodOf (fuel : Nat) (c : Cursor) (ds : List Cursor) : Option Declaration :=
  match ds with
  | d :: e :: _ =>
    match partTexts c ds with
    | [_, receiver, name, parameters, result, body] =>
      some (.method receiver (receiverTypeOf fuel d e) name ⟨[], parameters, result, body⟩)
    | _ => none
  | _ => none

theorem readFunction_eq (fuel : Nat) (c stop : Cursor) :
    readFunction fuel c stop = (readingTo fuel functionParts c stop).bind (functionOf c) := by
  rw [readFunction, textsTo]
  cases readingTo fuel functionParts c stop with
  | none => rfl
  | some ds =>
    rw [Option.map_some, Option.bind_some, functionOf]
    split <;> simp_all

theorem readMethod_eq (fuel : Nat) (c stop : Cursor) :
    readMethod fuel c stop = (readingTo fuel methodParts c stop).bind (methodOf fuel c) := by
  rw [readMethod]
  cases hreading : readingTo fuel methodParts c stop with
  | none => rfl
  | some ds =>
    have hlength : ds.length = 6 := length_of_mem_readings (List.mem_of_find?_eq_some hreading)
    match ds, hlength with
    | [_, _, _, _, _, _], _ => rfl

namespace Setting

variable {s : Setting} {fuel fuel' n m k : Nat} {c d start stop : Cursor} {f : Form}
  {fs : List Form}

theorem fit_functionHead : Fit [.word "func", .name [], Form.optional (typeParameters []),
    .phrase .parameters, result .lineEnd []] 0 0 :=
  .cons ⟨rfl, rfl, rfl⟩ (.cons (fits_name _) (.cons ⟨rfl, rfl, rfl⟩ (.cons ⟨rfl, rfl, rfl⟩
    (.cons ⟨rfl, rfl, rfl⟩ .nil))))

theorem fit_methodHead : Fit [.word "func", .phrase .parameters, .name typeWords,
    .phrase .parameters, result .lineEnd []] 0 0 :=
  .cons ⟨rfl, rfl, rfl⟩ (.cons ⟨rfl, rfl, rfl⟩ (.cons (fits_name _) (.cons ⟨rfl, rfl, rfl⟩
    (.cons ⟨rfl, rfl, rfl⟩ .nil))))

theorem fit_functionParts : Fit functionParts 0 0 :=
  fit_functionHead.append (.cons ⟨rfl, rfl, rfl⟩ .nil)

theorem fit_methodParts : Fit methodParts 0 0 :=
  fit_methodHead.append (.cons ⟨rfl, rfl, rfl⟩ .nil)

theorem Placed.receiverTypeOf_cursor (hc : s.Placed fuel fuel' n c) (stop : Cursor) :
    receiverTypeOf fuel' (s.cursor c) (s.cursor stop) = receiverTypeOf fuel c stop := by
  have hplace : s.Placed fuel fuel' (n + 0) c := hc
  have hopen : (Form.punctuation "(").Fits 0 1 := ⟨rfl, rfl, rfl⟩
  rw [receiverTypeOf, receiverTypeOf]
  rcases hplace.ends_cases hopen (hplace.ends_of_quiet hopen rfl) with
    ⟨hends, hends'⟩ | ⟨d, ds, hends, hends', -, hd⟩
  · rw [hends, hends']
    rfl
  · rw [hends, hends']
    exact hd.readReceiverType_cursor (Nat.le_refl _) (by rw [cursor_left]; omega) stop

theorem Placed.functionOf_cursor {ds : List Cursor} (hc : s.Placed fuel fuel' n c)
    (hds : ∀ d ∈ ds, ∃ l, s.Placed fuel fuel' l d) :
    functionOf (s.cursor c) (ds.map s.cursor) = functionOf c ds := by
  rw [functionOf, functionOf, hc.partTexts_cursor hds]

theorem Placed.methodOf_cursor {ds : List Cursor} (hc : s.Placed fuel fuel' n c)
    (hds : ∀ d ∈ ds, ∃ l, s.Placed fuel fuel' l d) :
    methodOf fuel' (s.cursor c) (ds.map s.cursor) = methodOf fuel c ds := by
  have htexts := hc.partTexts_cursor hds
  match ds with
  | [] | [_] => rfl
  | d :: e :: ds =>
    obtain ⟨l, hd⟩ := hds d List.mem_cons_self
    simp only [List.map_cons] at htexts
    simp only [methodOf, List.map_cons, htexts, hd.receiverTypeOf_cursor e]

theorem Placed.readFunction_cursor (hc : s.Placed fuel fuel' n c) (stop : Cursor) :
    readFunction fuel' (s.cursor c) (s.cursor stop) = readFunction fuel c stop := by
  have hplace : s.Placed fuel fuel' (n + 0) c := hc
  rw [readFunction_eq, readFunction_eq]
  rcases hplace.readingTo_cases fit_functionParts stop with
    ⟨hnone, hnone'⟩ | ⟨ds, hsome, hsome', -, -, hplaces⟩
  · rw [hnone, hnone']
    rfl
  · rw [hsome, hsome', Option.bind_some, Option.bind_some, hc.functionOf_cursor hplaces]

theorem Placed.readMethod_cursor (hc : s.Placed fuel fuel' n c) (stop : Cursor) :
    readMethod fuel' (s.cursor c) (s.cursor stop) = readMethod fuel c stop := by
  have hplace : s.Placed fuel fuel' (n + 0) c := hc
  rw [readMethod_eq, readMethod_eq]
  rcases hplace.readingTo_cases fit_methodParts stop with
    ⟨hnone, hnone'⟩ | ⟨ds, hsome, hsome', -, -, hplaces⟩
  · rw [hnone, hnone']
    rfl
  · rw [hsome, hsome', Option.bind_some, Option.bind_some, hc.methodOf_cursor hplaces]

/-! ## Declarations -/

/-- A declaration between two places of the segment has the same symbols in the source. -/
theorem Placed.symbols_readDeclaration (hc : s.Placed fuel fuel' n c) (stop : Cursor)
    (doc : Option String) :
    (readDeclaration fuel' (s.cursor c) (s.cursor stop)).symbols doc =
      (readDeclaration fuel c stop).symbols doc := by
  have hplace : s.Placed fuel fuel' (n + 0) c := hc
  have hword (w : String) :
      (((Form.word w).ends fuel c).head? = none ∧
        ((Form.word w).ends fuel' (s.cursor c)).head? = none) ∨
      ∃ d, ((Form.word w).ends fuel c).head? = some d ∧
        ((Form.word w).ends fuel' (s.cursor c)).head? = some (s.cursor d) ∧
        s.Placed fuel fuel' n d := by
    have hfits : (Form.word w).Fits 0 0 := ⟨rfl, rfl, rfl⟩
    rcases hplace.ends_cases hfits (hplace.ends_of_quiet hfits rfl) with
      ⟨hends, hends'⟩ | ⟨d, ds, hends, hends', -, hd⟩
    · exact .inl ⟨by rw [hends]; rfl, by rw [hends']; rfl⟩
    · exact .inr ⟨d, by rw [hends]; rfl, by rw [hends']; rfl, hd⟩
  have htypes (specs : List TypeSpec) :
      (Declaration.types (specs.map (TypeSpec.lowered s.above))).symbols doc =
        (Declaration.types specs).symbols doc := by
    simp only [Declaration.symbols, List.map_map]
    exact List.map_congr_left fun spec _ => spec.symbol_lowered s.above doc
  have hvalues {spec : Form} (hspec : spec.Fits 0 0) {d : Cursor} (hd : s.Placed fuel fuel' n d) :
      readSpecs fuel' spec (fun _ => readValueSpec fuel') (s.cursor d) (s.cursor stop) =
        readSpecs fuel spec (fun _ => readValueSpec fuel) d stop := by
    have hread (l : Nat) (grouped : Bool) (start stop : Cursor)
        (hstart : s.Placed fuel fuel' l start) :
        readValueSpec fuel' (s.cursor start) (s.cursor stop) =
          (readValueSpec fuel start stop).map id :=
      (hstart.readValueSpec_cursor stop).trans Option.map_id'.symm
    have hmoved := hd.readSpecs_cursor hspec hread stop
    rwa [List.map_id] at hmoved
  simp only [readDeclaration]
  rcases hword "type" with ⟨hnone, hnone'⟩ | ⟨d, hsome, hsome', hd⟩
  · rw [hnone, hnone']
    rcases hword "const" with ⟨hnone, hnone'⟩ | ⟨d, hsome, hsome', hd⟩
    · rw [hnone, hnone']
      rcases hword "var" with ⟨hnone, hnone'⟩ | ⟨d, hsome, hsome', hd⟩
      · rw [hnone, hnone']
        rcases hword "func" with ⟨hnone, hnone'⟩ | ⟨d, hsome, hsome', hd⟩
        · rw [hnone, hnone']
        · rw [hsome, hsome']
          dsimp only
          rw [hc.readFunction_cursor, hc.readMethod_cursor]
      · rw [hsome, hsome']
        dsimp only
        rw [hvalues ⟨rfl, rfl, rfl⟩ hd]
    · rw [hsome, hsome']
      dsimp only
      rw [hvalues ⟨rfl, rfl, rfl⟩ hd]
  · rw [hsome, hsome']
    dsimp only
    rw [hd.readSpecs_cursor ⟨rfl, rfl, rfl⟩ fun l grouped start stop hstart =>
      hstart.readTypeSpec_cursor grouped stop]
    exact htypes _

end Setting

end SourceBundle.Go
