import SourceBundle.Proofs.GoDepth
import SourceBundle.Proofs.MovedRows

/-!
# Segments of a source

A segment of a source reads the same wherever it stands, as long as an opening brace or nothing follows
it and the way through the source meets its end. A cursor of the segment has a place in the source, and
readings that end in the segment lead from place to place.
-/

namespace SourceBundle.Go

/-- Where a segment stands in a source. -/
structure Setting where
  /-- What follows the segment. -/
  tail : List Char
  /-- The number of line ends before the segment. -/
  above : Nat
  startsBody : StartsBody tail

namespace Setting

variable (s : Setting)

def cursor (c : Cursor) : Cursor :=
  ⟨c.rest ++ s.tail, c.left + s.tail.length, c.row + s.above⟩

def near (c : Cursor) : Bool :=
  s.tail.length ≤ c.left

/-- Some brackets are open at a place of a segment, and the way from there leads to the end of the
segment, where all of them are closed. -/
def Inside (n : Nat) (c : Cursor) : Prop :=
  ∃ e, Path n (s.cursor c) 0 e ∧ e.left = s.tail.length

variable {s} {n m : Nat} {c d : Cursor}

@[simp] theorem cursor_rest : (s.cursor c).rest = c.rest ++ s.tail := rfl

@[simp] theorem cursor_left : (s.cursor c).left = c.left + s.tail.length := rfl

@[simp] theorem cursor_row : (s.cursor c).row = c.row + s.above := rfl

@[simp] theorem near_cursor : s.near (s.cursor c) = true := by
  simp [near]

theorem counted_cursor (hc : c.Counted) : (s.cursor c).Counted := by
  rw [Cursor.Counted, cursor_left, cursor_rest, List.length_append, hc]

theorem cursor_next (h : c.rest ≠ []) (hc : c.Counted) : (s.cursor c).next = s.cursor c.next := by
  cases hrest : c.rest with
  | nil => exact absurd hrest h
  | cons ch cs =>
    have hleft : c.left = cs.length + 1 := by rw [hc, hrest]; rfl
    simp only [Cursor.next, cursor, hrest, List.cons_append, hleft]
    congr 1
    · omega
    · split <;> omega

theorem cursor_advance (hc : c.Counted) {count : Nat} (h : count ≤ c.left) :
    (s.cursor c).advance count = s.cursor (c.advance count) := by
  induction count generalizing c with
  | zero => rfl
  | succ count ih =>
    have hne : c.rest ≠ [] := by
      rintro hnil
      rw [hc, hnil] at h
      simp at h
    rw [Cursor.advance, Cursor.advance, cursor_next hne hc,
      ih hc.next (by rw [Cursor.next_left hc]; omega)]

theorem not_near_of_reaches (hc : c.Counted) (h : s.near c = false) (hcd : c.Reaches d) :
    s.near d = false := by
  have hle := hcd.left_le hc
  simp only [near, decide_eq_false_iff_not] at h ⊢
  omega

/-! ## Strings and tokens -/

theorem filter_eq_none {found : Option Cursor} (hrest : c.rest = []) (hc : c.Counted)
    (h : ∀ d, found = some d → d.left < (s.cursor c).left) : found.filter s.near = none := by
  rw [Option.filter_eq_none_iff]
  intro d hd
  have hlt := h d hd
  rw [cursor_left, hc, hrest] at hlt
  simp only [List.length_nil, Nat.zero_add] at hlt
  simp only [near, decide_eq_true_eq]
  omega

theorem filter_passRaw {fuel fuel' : Nat} (hc : c.Counted) (hfuel : c.left ≤ fuel)
    (hfuel' : c.left ≤ fuel') :
    (passRaw fuel' (s.cursor c)).filter s.near = (passRaw fuel c).map s.cursor := by
  induction fuel generalizing fuel' c with
  | zero =>
    have hrest : c.rest = [] := List.length_eq_zero_iff.mp (hc ▸ Nat.le_zero.mp hfuel)
    exact filter_eq_none hrest hc fun d => Cursor.left_lt_of_passRaw (counted_cursor hc)
  | succ fuel ih =>
    cases hrest : c.rest with
    | nil =>
      rw [passRaw, hrest]
      exact filter_eq_none hrest hc fun d => Cursor.left_lt_of_passRaw (counted_cursor hc)
    | cons ch cs =>
      have hne : c.rest ≠ [] := by simp [hrest]
      have hleft : c.left = cs.length + 1 := by rw [hc, hrest]; rfl
      obtain ⟨fuel', rfl⟩ := Nat.exists_eq_add_of_le' (Nat.le_trans (by omega : 1 ≤ c.left) hfuel')
      rw [passRaw, passRaw, cursor_rest, hrest, cursor_next hne hc]
      dsimp only [List.cons_append]
      have hnext := Cursor.next_left hc
      split
      · simp
      · exact ih hc.next (by omega) (by omega)

theorem cursor_passBlanks {fuel fuel' : Nat} (hc : c.Counted) (hfuel : c.left ≤ fuel)
    (hfuel' : c.left ≤ fuel') :
    passInterpreted.passBlanks fuel' (s.cursor c) =
      s.cursor (passInterpreted.passBlanks fuel c) := by
  induction fuel generalizing fuel' c with
  | zero =>
    have hrest : c.rest = [] := List.length_eq_zero_iff.mp (hc ▸ Nat.le_zero.mp hfuel)
    cases fuel' with
    | zero => rfl
    | succ fuel' =>
      rw [passInterpreted.passBlanks, passInterpreted.passBlanks, cursor_rest, hrest]
      rcases startsBody_cases s.startsBody with htail | ⟨rest, htail⟩
      · rw [htail]
        rfl
      · rw [htail]
        rfl
  | succ fuel ih =>
    cases hrest : c.rest with
    | nil =>
      have hhere : passInterpreted.passBlanks (fuel + 1) c = c := by
        rw [passInterpreted.passBlanks, hrest]
      rw [hhere]
      cases fuel' with
      | zero => rfl
      | succ fuel' =>
        rw [passInterpreted.passBlanks, cursor_rest, hrest]
        rcases startsBody_cases s.startsBody with htail | ⟨rest, htail⟩
        · rw [htail]
          rfl
        · rw [htail]
          rfl
    | cons ch cs =>
      have hne : c.rest ≠ [] := by simp [hrest]
      have hleft : c.left = cs.length + 1 := by rw [hc, hrest]; rfl
      obtain ⟨fuel', rfl⟩ := Nat.exists_eq_add_of_le' (Nat.le_trans (by omega : 1 ≤ c.left) hfuel')
      rw [passInterpreted.passBlanks, passInterpreted.passBlanks, cursor_rest, hrest,
        cursor_next hne hc]
      dsimp only [List.cons_append]
      have hnext := Cursor.next_left hc
      split
      · exact ih hc.next (by omega) (by omega)
      · rfl

theorem passInterpreted_nil (hrest : c.rest = []) (fuel : Nat) : passInterpreted fuel c = none := by
  cases fuel with
  | zero => rfl
  | succ fuel => rw [passInterpreted, hrest]

theorem passInterpreted_quote {cs : List Char} (hrest : c.rest = '"' :: cs) (fuel : Nat) :
    passInterpreted (fuel + 1) c = some c.next := by
  rw [passInterpreted, hrest]
  rfl

theorem passInterpreted_escape {cs : List Char} (hrest : c.rest = '\\' :: cs) (fuel : Nat) :
    passInterpreted (fuel + 1) c =
      (stringEscapeLength? cs).bind fun n => passInterpreted fuel (c.advance (n + 1)) := by
  rw [passInterpreted, hrest]
  rfl

theorem passInterpreted_line {cs : List Char} (hrest : c.rest = '\n' :: cs) (fuel : Nat) :
    passInterpreted (fuel + 1) c =
      (commentLength? (passInterpreted.passBlanks fuel c).rest).bind fun n =>
        passInterpreted fuel ((passInterpreted.passBlanks fuel c).advance n) := by
  rw [passInterpreted, hrest]
  rfl

theorem passInterpreted_other {ch : Char} {cs : List Char} (hrest : c.rest = ch :: cs)
    (hch : ch ≠ '"' ∧ ch ≠ '\\' ∧ ch ≠ '\n') (fuel : Nat) :
    passInterpreted (fuel + 1) c = passInterpreted fuel c.next := by
  rw [passInterpreted, hrest]
  split
  · next heq => cases heq
  · next heq => exact absurd (List.cons.inj heq).1 hch.1
  · next heq => exact absurd (List.cons.inj heq).1 hch.2.1
  · next heq => exact absurd (List.cons.inj heq).1 hch.2.2
  · rfl

theorem filter_passMark {fuel fuel' : Nat}
    (hpass : ∀ {c : Cursor} {fuel' : Nat}, c.Counted → c.left < fuel → c.left < fuel' →
      (passInterpreted fuel' (s.cursor c)).filter s.near = (passInterpreted fuel c).map s.cursor)
    (hc : c.Counted) (hfuel : c.left ≤ fuel) (hfuel' : c.left ≤ fuel') :
    ((commentLength? (passInterpreted.passBlanks fuel' (s.cursor c)).rest).bind fun n =>
        passInterpreted fuel' ((passInterpreted.passBlanks fuel' (s.cursor c)).advance n)).filter
          s.near =
      ((commentLength? (passInterpreted.passBlanks fuel c).rest).bind fun n =>
        passInterpreted fuel ((passInterpreted.passBlanks fuel c).advance n)).map s.cursor := by
  rw [cursor_passBlanks hc hfuel hfuel']
  have hreach := Cursor.reaches_passBlanks fuel c
  generalize passInterpreted.passBlanks fuel c = mark at hreach
  have hmark := hreach.counted hc
  have hle := hreach.left_le hc
  by_cases hover : ∃ n, commentLength? (mark.rest ++ s.tail) = some n ∧ mark.left < n
  · obtain ⟨n, hn, hlt⟩ := hover
    have hsource : ((passInterpreted fuel' ((s.cursor mark).advance n)).filter s.near) = none := by
      refine Option.filter_eq_none_iff.mpr fun d hd => ?_
      have hbehind := Cursor.left_lt_of_passInterpreted
        ((Cursor.reaches_advance _ _).counted (counted_cursor hmark)) hd
      rw [Cursor.advance_left (counted_cursor hmark), cursor_left] at hbehind
      simp only [near, decide_eq_true_eq]
      omega
    rw [cursor_rest, hn, Option.bind_some, hsource]
    cases hk : commentLength? mark.rest with
    | none => rfl
    | some k =>
      obtain rfl := commentLength?_of_lt s.startsBody hn (by rw [← hmark]; exact hlt) hk
      have hend : (mark.advance mark.rest.length).rest = [] := by
        rw [Cursor.advance_rest, List.drop_length]
      rw [Option.bind_some, passInterpreted_nil hend]
      rfl
  · have hwithin : ∀ n, commentLength? (mark.rest ++ s.tail) = some n → n ≤ mark.left :=
      fun n hn => Nat.le_of_not_lt fun hlt => hover ⟨n, hn, hlt⟩
    rw [cursor_rest, commentLength?_append s.startsBody (by rw [← hmark]; exact hwithin)]
    cases hn : commentLength? mark.rest with
    | none => rfl
    | some n =>
      have hpos := commentLength?_pos hn
      have hlength := commentLength?_le hn
      rw [← hmark] at hlength
      have hadvance := Cursor.advance_left hmark n
      rw [Option.bind_some, Option.bind_some, cursor_advance hmark hlength]
      exact hpass ((Cursor.reaches_advance mark n).counted hmark) (by omega) (by omega)

theorem filter_passInterpreted {fuel fuel' : Nat} (hc : c.Counted) (hfuel : c.left < fuel)
    (hfuel' : c.left < fuel') :
    (passInterpreted fuel' (s.cursor c)).filter s.near = (passInterpreted fuel c).map s.cursor := by
  induction fuel generalizing fuel' c with
  | zero => exact absurd hfuel (Nat.not_lt_zero _)
  | succ fuel ih =>
    cases hrest : c.rest with
    | nil =>
      rw [passInterpreted_nil hrest]
      exact filter_eq_none hrest hc fun d => Cursor.left_lt_of_passInterpreted (counted_cursor hc)
    | cons ch cs =>
      have hne : c.rest ≠ [] := by simp [hrest]
      have hleft : c.left = cs.length + 1 := by rw [hc, hrest]; rfl
      obtain ⟨fuel', rfl⟩ := Nat.exists_eq_add_of_lt hfuel'
      have hnext := Cursor.next_left hc
      have hsource : (s.cursor c).rest = ch :: (cs ++ s.tail) := by rw [cursor_rest, hrest]; rfl
      by_cases hquote : ch = '"'
      · subst hquote
        rw [passInterpreted_quote hrest, passInterpreted_quote hsource, cursor_next hne hc]
        simp
      by_cases hslash : ch = '\\'
      · subst hslash
        rw [passInterpreted_escape hrest, passInterpreted_escape hsource]
        rcases eq_or_ne cs [] with rfl | hcs
        · refine Option.filter_eq_none_iff.mpr fun d hd => ?_
          obtain ⟨n, -, hd⟩ := Option.bind_eq_some_iff.mp hd
          have hlt := Cursor.left_lt_of_passInterpreted
            ((Cursor.reaches_advance _ _).counted (counted_cursor hc)) hd
          rw [Cursor.advance_left (counted_cursor hc), cursor_left] at hlt
          simp only [List.length_nil] at hleft
          simp only [near, decide_eq_true_eq]
          omega
        · rw [stringEscapeLength?_append s.startsBody hcs]
          cases hescape : stringEscapeLength? cs with
          | none => rfl
          | some n =>
            have hle := stringEscapeLength?_le hescape
            have hadvance := Cursor.advance_left hc (n + 1)
            rw [Option.bind_some, Option.bind_some, cursor_advance hc (by omega)]
            exact ih ((Cursor.reaches_advance c _).counted hc) (by omega) (by omega)
      by_cases hline : ch = '\n'
      · subst hline
        rw [passInterpreted_line hrest, passInterpreted_line hsource]
        exact filter_passMark ih hc (by omega) (by omega)
      · rw [passInterpreted_other hrest ⟨hquote, hslash, hline⟩,
          passInterpreted_other hsource ⟨hquote, hslash, hline⟩, cursor_next hne hc]
        exact ih hc.next (by omega) (by omega)

theorem filter_passString (hc : c.Counted) :
    (passString (s.cursor c)).filter s.near = (passString c).map s.cursor := by
  cases hrest : c.rest with
  | nil =>
    have hnone : passString c = none := by rw [passString, hrest]
    rw [hnone]
    exact filter_eq_none hrest hc fun d => Cursor.left_lt_of_passString (counted_cursor hc)
  | cons ch cs =>
    have hne : c.rest ≠ [] := by simp [hrest]
    have hnext := Cursor.next_left hc
    have hleft : c.left = cs.length + 1 := by rw [hc, hrest]; rfl
    have hsource : (s.cursor c).rest = ch :: (cs ++ s.tail) := by rw [cursor_rest, hrest]; rfl
    by_cases hquote : ch = '"'
    · subst hquote
      rw [passString, passString, hsource, hrest, cursor_next hne hc]
      exact filter_passInterpreted hc.next (by omega) (by rw [cursor_left]; omega)
    · have hother {d : Cursor} {ds : List Char} (hd : d.rest = ch :: ds) :
          passString d = if ch == Char.ofNat 0x60 then passRaw d.left d.next else none := by
        rw [passString, hd]
        split
        · next heq => exact absurd (List.cons.inj heq).1 hquote
        · next heq =>
          obtain ⟨rfl, -⟩ := List.cons.inj heq
          rfl
        · next heq => cases heq
      rw [hother hrest, hother hsource, cursor_next hne hc]
      split
      · exact filter_passRaw hc.next (by omega) (by rw [cursor_left]; omega)
      · rfl

theorem filter_passSign {sign : String} (hc : c.Counted) (hlevel : signLevel sign.toList n = some m) :
    ((s.cursor c).passSign sign).filter s.near = (c.passSign sign).map s.cursor := by
  obtain ⟨ch, cs, hsign, hflat, -⟩ := exists_of_signLevel hlevel
  have hcs : '\x7b' ∉ cs := fun hmem => absurd (hflat _ hmem) (by decide)
  cases hrest : c.rest with
  | nil =>
    have hnone : c.passSign sign = none := by
      rw [Cursor.passSign, hrest, hsign]
      rfl
    rw [hnone]
    exact filter_eq_none hrest hc fun d =>
      Cursor.left_lt_of_passSign (counted_cursor hc) (by simp [hsign])
  | cons x xs =>
    have hprefix : sign.toList.isPrefixOf (s.cursor c).rest = sign.toList.isPrefixOf c.rest := by
      rw [cursor_rest, hrest, hsign, List.cons_append, List.isPrefixOf, List.isPrefixOf,
        isPrefixOf_append hcs xs s.startsBody]
    rw [Cursor.passSign, Cursor.passSign, hprefix]
    split
    · next htrue =>
      have hlength : sign.length ≤ c.left := by
        rw [hc, ← String.length_toList]
        exact (List.isPrefixOf_iff_prefix.mp htrue).length_le
      rw [cursor_advance hc hlength]
      simp
    · rfl

theorem filter_toList {found : Option Cursor} {near : Cursor → Bool} :
    found.toList.filter near = (found.filter near).toList := by
  cases found with
  | none => rfl
  | some d => cases hd : near d <;> simp [Option.filter, hd]

theorem map_toList {found : Option Cursor} :
    found.toList.map s.cursor = (found.map s.cursor).toList := by
  cases found <;> rfl

theorem no_brace_of_flat {text : List Char} (h : text.all isFlat = true) : '\x7b' ∉ text :=
  fun hmem => absurd (List.all_eq_true.mp h _ hmem) (by decide)

theorem filter_word {count : Nat} (hc : c.Counted) (hcount : count ≤ c.left) (kept : List Char → Bool) :
    (if kept ((s.cursor c).rest.take count) then [(s.cursor c).advance count] else []).filter s.near =
      (if kept (c.rest.take count) then [c.advance count] else []).map s.cursor := by
  rw [cursor_rest, List.take_append_of_le_length (by rw [← hc]; exact hcount),
    cursor_advance hc hcount]
  split <;> simp

theorem filter_passLength {length : Option Nat} (hc : c.Counted)
    (h : ∀ count, length = some count → count ≤ c.rest.length) :
    ((s.cursor c).passLength length).filter s.near = (c.passLength length).map s.cursor := by
  cases length with
  | none => rfl
  | some count =>
    have hcount : count ≤ c.left := hc ▸ h count rfl
    simp [Cursor.passLength, cursor_advance hc hcount]

theorem any_isPrefixOf_append {signs : List String} (h : signs.all (·.toList.all isFlat) = true)
    (text : List Char) {more : List Char} (hmore : StartsBody more) :
    (signs.any fun l => l.toList.isPrefixOf (text ++ more)) =
      signs.any fun l => l.toList.isPrefixOf text := by
  induction signs with
  | nil => rfl
  | cons sign signs ih =>
    rw [List.all_cons, Bool.and_eq_true] at h
    rw [List.any_cons, List.any_cons, isPrefixOf_append (no_brace_of_flat h.1) text hmore, ih h.2]

theorem filter_tokenEnds {f : Form} (hc : c.Counted) (hlevel : f.level n = some m) :
    (f.tokenEnds (s.cursor c)).filter s.near = (f.tokenEnds c).map s.cursor := by
  have hword : wordLength c.rest ≤ c.left := by
    rw [hc]
    exact wordLength_le _
  cases f with
  | word w =>
    simp only [Form.tokenEnds, cursor_rest, wordLength_append c.rest s.startsBody]
    exact filter_word hc hword fun text => wordLength c.rest != 0 && text == w.toList
  | name reserved =>
    have hname := filter_word hc hword (s := s) fun text =>
      !(wordLength c.rest == 0 || reserved.contains (String.ofList text))
    simpa only [Form.tokenEnds, cursor_rest, wordLength_append c.rest s.startsBody,
      Bool.not_eq_true', ite_not, Bool.not_eq_false, Bool.eq_false_iff, ne_eq] using hname
  | sign sign longer =>
    rw [Form.level] at hlevel
    split at hlevel
    · next hlonger =>
      rw [Form.tokenEnds, Form.tokenEnds, cursor_rest,
        any_isPrefixOf_append hlonger c.rest s.startsBody]
      split
      · rfl
      · rw [filter_toList, filter_passSign hc hlevel, map_toList]
    · cases hlevel
  | operator ending =>
    have hsigns : ∀ s ∈ binaryOperators ++ ending.operators, '\x7b' ∉ s.toList := by
      cases ending <;> decide
    simp only [Form.tokenEnds, cursor_rest, longestSign_append hsigns c.rest s.startsBody]
    split
    · split
      · next hoperator =>
        rw [filter_toList, filter_passSign hc (signLevel_binaryOperators 0 _ (by simpa using hoperator)),
          map_toList]
      · rfl
    · rfl
  | number =>
    simp only [Form.tokenEnds, cursor_rest, numberLength?_append c.rest s.startsBody]
    exact filter_passLength hc fun count hcount => (numberLength?_bounds hcount).2.1
  | rune =>
    simp only [Form.tokenEnds, cursor_rest, ← runeLength?_append c.rest s.startsBody]
    cases hlength : runeLength? (c.rest ++ s.tail) with
    | none => rfl
    | some count =>
      by_cases hcount : count ≤ c.rest.length
      · have hkept : (some count).filter (fun n => n ≤ c.rest.length) = some count := by
          simp [Option.filter, hcount]
        rw [hkept]
        refine filter_passLength hc fun n hn => ?_
        cases hn
        exact hcount
      · have hfar : s.near ((s.cursor c).advance count) = false := by
          rw [near, decide_eq_false_iff_not, Cursor.advance_left (counted_cursor hc), cursor_left, hc]
          have hle := (runeLength?_bounds hlength).2
          rw [List.length_append] at hle
          omega
        simp [Option.filter, hcount, Cursor.passLength, hfar]
  | string => rw [Form.tokenEnds, Form.tokenEnds, filter_toList, filter_passString hc, map_toList]
  | _ => rfl

/-! ## Gaps -/

theorem Inside.of_path (h : s.Inside n c) (hc : c.Counted)
    (hpath : Path n (s.cursor c) m (s.cursor d)) : s.Inside m d := by
  obtain ⟨e, he, hleft⟩ := h
  exact ⟨e, hpath.rest_of_le (counted_cursor hc) he (by rw [hleft, cursor_left]; omega), hleft⟩

theorem Inside.comment_le (h : s.Inside n c) (hc : c.Counted) {count : Nat}
    (hcount : commentLength? (c.rest ++ s.tail) = some count) : count ≤ c.left := by
  obtain ⟨e, he, hleft⟩ := h
  have hstride : (s.cursor c).stride = count := by rw [Cursor.stride, cursor_rest, hcount]
  have hlength := commentLength?_le hcount
  rw [List.length_append, ← hc] at hlength
  cases he with
  | refl =>
    have hend : c.rest = [] := by
      rw [cursor_left, hc] at hleft
      exact List.length_eq_zero_iff.mp (by omega)
    rw [hend, List.nil_append] at hcount
    rcases startsBody_cases s.startsBody with htail | ⟨rest, htail⟩
    · rw [htail] at hcount
      cases hcount
    · rw [htail] at hcount
      cases hcount
  | step hch hopened hrest =>
    have hpast : (s.cursor c).past.left = (s.cursor c).left - count := by
      rw [Cursor.past, hstride, Cursor.advance_left (counted_cursor hc)]
    have hle : e.left ≤ (s.cursor c).past.left :=
      hrest.reaches.left_le ((Cursor.reaches_advance _ _).counted (counted_cursor hc))
    rw [hpast, cursor_left, hleft] at hle
    omega

theorem skipFrom_nil (pastLines : Bool) (fuel : Nat) (hrest : c.rest = []) :
    skipFrom pastLines fuel c = ([], c) := by
  cases fuel with
  | zero => rfl
  | succ fuel => rw [skipFrom, hrest]

theorem skipFrom_blank {pastLines : Bool} {ch : Char} {cs : List Char} (hrest : c.rest = ch :: cs)
    (hblank : isGapBlank pastLines ch = true) (fuel : Nat) :
    skipFrom pastLines (fuel + 1) c = skipFrom pastLines fuel c.next := by
  rw [skipFrom, hrest]
  exact if_pos hblank

theorem skipFrom_stop {pastLines : Bool} {ch : Char} {cs : List Char} (hrest : c.rest = ch :: cs)
    (hblank : isGapBlank pastLines ch = false) (hcomment : commentLength? c.rest = none)
    (fuel : Nat) : skipFrom pastLines fuel c = ([], c) := by
  cases fuel with
  | zero => rfl
  | succ fuel =>
    rw [hrest] at hcomment
    rw [skipFrom, hrest]
    dsimp only
    rw [hcomment]
    exact if_neg (by rw [← isGapBlank, hblank]; exact Bool.false_ne_true)

theorem skipFrom_comment {pastLines : Bool} {ch : Char} {cs : List Char} {count : Nat}
    (hrest : c.rest = ch :: cs) (hblank : isGapBlank pastLines ch = false)
    (hcomment : commentLength? c.rest = some count) (fuel : Nat) :
    skipFrom pastLines (fuel + 1) c =
      (⟨c.textTo (c.advance count), c.row, (c.advance count).row⟩ ::
        (skipFrom pastLines fuel (c.advance count)).1,
        (skipFrom pastLines fuel (c.advance count)).2) := by
  rw [hrest] at hcomment
  rw [skipFrom, hrest]
  dsimp only
  rw [hcomment]
  exact if_neg (by rw [← isGapBlank, hblank]; exact Bool.false_ne_true)

theorem cursor_textTo (hc : c.Counted) : (s.cursor c).textTo (s.cursor d) = c.textTo d := by
  have hleft : (s.cursor c).left - (s.cursor d).left = c.left - d.left := by
    simp only [cursor_left]
    omega
  rw [Cursor.textTo, Cursor.textTo, hleft, cursor_rest]
  exact List.take_append_of_le_length (by rw [← hc]; exact Nat.sub_le _ _)

theorem skipFrom_of_rest_nil {pastLines : Bool} {fuel : Nat} (hrest : c.rest = []) :
    skipFrom pastLines fuel (s.cursor c) = ([], s.cursor c) := by
  have hsource : (s.cursor c).rest = s.tail := by rw [cursor_rest, hrest]; rfl
  rcases startsBody_cases s.startsBody with htail | ⟨rest, htail⟩
  · exact skipFrom_nil _ _ (hsource.trans htail)
  · rw [htail] at hsource
    exact skipFrom_stop hsource (by cases pastLines <;> rfl) (by rw [hsource]; rfl) fuel

/-- Gaps are alike wherever the segment stands, their comments on other rows. -/
theorem cursor_skipFrom (pastLines : Bool) {fuel fuel' : Nat} (hc : c.Counted) (hin : s.Inside n c)
    (hfuel : c.left ≤ fuel) (hfuel' : c.left ≤ fuel') :
    skipFrom pastLines fuel' (s.cursor c) =
      ((skipFrom pastLines fuel c).1.map fun comment => comment.lowered s.above,
        s.cursor (skipFrom pastLines fuel c).2) := by
  induction fuel generalizing fuel' c with
  | zero =>
    have hrest : c.rest = [] := List.length_eq_zero_iff.mp (hc ▸ Nat.le_zero.mp hfuel)
    rw [skipFrom_of_rest_nil hrest]
    rfl
  | succ fuel ih =>
    cases hrest : c.rest with
    | nil =>
      rw [skipFrom_nil _ _ hrest, skipFrom_of_rest_nil hrest]
      rfl
    | cons ch cs =>
      have hne : c.rest ≠ [] := by simp [hrest]
      have hpos := Cursor.left_pos_of_rest_ne_nil hc hne
      have hsource : (s.cursor c).rest = ch :: (cs ++ s.tail) := by rw [cursor_rest, hrest]; rfl
      obtain ⟨fuel', rfl⟩ := Nat.exists_eq_add_of_le' (Nat.le_trans hpos hfuel')
      have hnext := Cursor.next_left hc
      cases hblank : isGapBlank pastLines ch with
      | true =>
        have hflat : isFlat ch = true := by
          simp only [isGapBlank, isLineBlank, Bool.or_eq_true, Bool.and_eq_true, beq_iff_eq] at hblank
          rcases hblank with ((((rfl | rfl) | rfl) | rfl) | rfl) | ⟨-, rfl⟩ <;> decide
        have hpath : Path n (s.cursor c) n (s.cursor c).next :=
          .flat (by rw [hsource]; rfl) hflat
        rw [cursor_next hne hc] at hpath
        rw [skipFrom_blank hrest hblank, skipFrom_blank hsource hblank, cursor_next hne hc]
        exact ih hc.next (hin.of_path hc hpath) (by omega) (by omega)
      | false =>
        have hwithin : ∀ count, commentLength? (c.rest ++ s.tail) = some count →
            count ≤ c.rest.length := fun count hcount => hc ▸ hin.comment_le hc hcount
        have happend : commentLength? (s.cursor c).rest = commentLength? c.rest :=
          commentLength?_append s.startsBody hwithin
        cases hcomment : commentLength? c.rest with
        | none =>
          rw [skipFrom_stop hrest hblank hcomment,
            skipFrom_stop hsource hblank (happend.trans hcomment)]
          rfl
        | some count =>
          have hcountPos := commentLength?_pos hcomment
          have hcount : count ≤ c.left := hc ▸ commentLength?_le hcomment
          have hadvance := Cursor.advance_left hc count
          have hpath : Path n (s.cursor c) n ((s.cursor c).advance count) :=
            .comment (happend.trans hcomment)
          rw [cursor_advance hc hcount] at hpath
          rw [skipFrom_comment hrest hblank hcomment,
            skipFrom_comment hsource hblank (happend.trans hcomment), cursor_advance hc hcount,
            cursor_textTo hc, ih ((Cursor.reaches_advance c count).counted hc)
              (hin.of_path hc hpath) (by omega) (by omega)]
          rfl

theorem cursor_skip (hc : c.Counted) (hin : s.Inside n c) :
    (s.cursor c).skip = s.cursor c.skip :=
  congrArg Prod.snd (cursor_skipFrom true hc hin (Nat.le_refl _) (by rw [cursor_left]; omega))

theorem cursor_skipInLine (hc : c.Counted) (hin : s.Inside n c) :
    (s.cursor c).skipInLine = s.cursor c.skipInLine :=
  congrArg Prod.snd (cursor_skipFrom false hc hin (Nat.le_refl _) (by rw [cursor_left]; omega))

theorem Inside.skip (hin : s.Inside n c) (hc : c.Counted) : s.Inside n c.skip :=
  hin.of_path hc (cursor_skip hc hin ▸ Path.skipFrom true _ _)

theorem Inside.skipInLine (hin : s.Inside n c) (hc : c.Counted) : s.Inside n c.skipInLine :=
  hin.of_path hc (cursor_skipInLine hc hin ▸ Path.skipFrom false _ _)

end Setting

end SourceBundle.Go
