import SourceBundle.Proofs.GoLayout
import SourceBundle.Proofs.GoLexemes

/-!
# Brackets

A source is one sequence of comments, strings, runes and single characters, and every reading goes
along it. A form that is read in full closes the brackets that it opens, so what is read inside
brackets never leaves them.
-/

namespace SourceBundle.Go

namespace Cursor

/-- How long what stands at the cursor is: a comment, a rune, a string, or else one character. -/
def stride (c : Cursor) : Nat :=
  match commentLength? c.rest with
  | some n => n
  | none =>
    match runeLength? c.rest with
    | some n => n
    | none => (passString c).elim 1 (c.left - ·.left)

def past (c : Cursor) : Cursor :=
  c.advance c.stride

end Cursor

def opened (ch : Char) (n : Nat) : Option Nat :=
  if ['(', '[', '\x7b'].contains ch then some (n + 1)
  else if [')', ']', '\x7d'].contains ch then
    match n with
    | 0 => none
    | n + 1 => some n
  else some n

/-- The way from one cursor to another, with the number of brackets that are open at both. No bracket
is closed that is not open. -/
inductive Path : Nat → Cursor → Nat → Cursor → Prop
  | refl {n c} : Path n c n c
  | step {n c ch k m d} (hch : c.rest.head? = some ch) (hopened : opened ch n = some k)
      (hrest : Path k c.past m d) : Path n c m d

/-! ## Strides -/

namespace Cursor

theorem advance_left {c : Cursor} (hc : c.Counted) (n : Nat) : (c.advance n).left = c.left - n := by
  have hcounted : (c.advance n).Counted := (reaches_advance c n).counted hc
  rw [hcounted, advance_rest, List.length_drop, hc]

theorem Reaches.left_le {c d : Cursor} (hc : c.Counted) (h : c.Reaches d) : d.left ≤ c.left := by
  obtain ⟨n, rfl⟩ := h
  rw [advance_left hc]
  exact Nat.sub_le _ _

theorem advance_of_rest_nil {c : Cursor} (h : c.rest = []) (n : Nat) : c.advance n = c := by
  induction n with
  | zero => rfl
  | succ n ih =>
    have hnext : c.next = c := by rw [next, h]
    rw [advance, hnext, ih]

theorem Reaches.advance_eq {c d : Cursor} (hc : c.Counted) (h : c.Reaches d) :
    c.advance (c.left - d.left) = d := by
  obtain ⟨n, rfl⟩ := h
  rw [advance_left hc]
  rcases Nat.le_total n c.left with hn | hn
  · congr 1
    omega
  · have hall : (c.advance c.left).rest = [] := by rw [advance_rest, hc, List.drop_length]
    obtain ⟨k, rfl⟩ := Nat.exists_eq_add_of_le hn
    rw [advance_add, advance_of_rest_nil hall]
    congr 1
    omega

theorem Reaches.eq_of_left_eq {c d e : Cursor} (hc : c.Counted) (hd : c.Reaches d)
    (he : c.Reaches e) (h : d.left = e.left) : d = e := by
  rw [← hd.advance_eq hc, ← he.advance_eq hc, h]

theorem next_left {c : Cursor} (hc : c.Counted) : c.next.left = c.left - 1 :=
  advance_left hc 1

theorem left_lt_of_passRaw {fuel : Nat} {c d : Cursor} (hc : c.Counted)
    (h : passRaw fuel c = some d) : d.left < c.left := by
  fun_induction passRaw fuel c with
  | case1 => cases h
  | case2 => cases h
  | case3 fuel c ch cs hrest hquote =>
    cases h
    rw [next_left hc, hc, hrest]
    simp
  | case4 fuel c ch cs hrest hquote ih =>
    have := ih hc.next h
    rw [next_left hc] at this
    omega

theorem left_lt_of_passInterpreted {fuel : Nat} {c d : Cursor} (hc : c.Counted)
    (h : passInterpreted fuel c = some d) : d.left < c.left := by
  induction fuel generalizing c with
  | zero => cases h
  | succ fuel ih =>
    have hreach {e : Cursor} (hce : c.Reaches e) (he : passInterpreted fuel e = some d) :
        d.left < c.left :=
      Nat.lt_of_lt_of_le (ih (hce.counted hc) he) (hce.left_le hc)
    rw [passInterpreted] at h
    split at h
    · cases h
    · next rest hrest =>
      cases h
      rw [next_left hc, hc, hrest]
      simp
    · obtain ⟨n, -, hn⟩ := Option.bind_eq_some_iff.mp h
      exact hreach (reaches_advance c (n + 1)) hn
    · obtain ⟨n, -, hn⟩ := Option.bind_eq_some_iff.mp h
      exact hreach ((reaches_passBlanks fuel c).trans (reaches_advance _ n)) hn
    · exact hreach (reaches_next c) h

theorem left_lt_of_passString {c d : Cursor} (hc : c.Counted) (h : passString c = some d) :
    d.left < c.left := by
  have hnext := (reaches_next c).left_le hc
  rw [passString] at h
  split at h
  · exact Nat.lt_of_lt_of_le (left_lt_of_passInterpreted hc.next h) hnext
  · split at h
    · exact Nat.lt_of_lt_of_le (left_lt_of_passRaw hc.next h) hnext
    · cases h
  · cases h

theorem stride_pos {c : Cursor} (hc : c.Counted) : 0 < c.stride := by
  unfold stride
  split
  · next n hn => exact commentLength?_pos hn
  split
  · next n hn => exact (runeLength?_bounds hn).1
  · cases hstring : passString c with
    | none => exact Nat.one_pos
    | some d => exact Nat.sub_pos_of_lt (left_lt_of_passString hc hstring)

theorem stride_eq_one {c : Cursor} {ch : Char} (hch : c.rest.head? = some ch)
    (hquotes : ch ≠ '"' ∧ ch ≠ '\'' ∧ ch ≠ Char.ofNat 0x60)
    (hcomment : commentLength? c.rest = none) : c.stride = 1 := by
  have hne {d : Char} (hd : ch ≠ d) : c.rest.head? ≠ some d := by
    rw [hch]
    exact fun h => hd (Option.some.inj h)
  have hrune : runeLength? c.rest = none := runeLength?_of_head (hne hquotes.2.1)
  have hstring : passString c = none := by
    rw [passString]
    split
    · next heq => exact absurd (by rw [heq]; rfl) (hne hquotes.1)
    · next d cs heq =>
      rw [heq] at hch
      rw [if_neg (by simpa [Option.some.inj hch] using hquotes.2.2)]
    · rfl
  simp [stride, hcomment, hrune, hstring]

end Cursor

/-! ## Ways -/

theorem opened_add {ch : Char} {n m : Nat} (h : opened ch n = some m) (k : Nat) :
    opened ch (n + k) = some (m + k) := by
  unfold opened at h ⊢
  split at h
  · cases h
    rw [if_pos ‹_›]
    congr 1
    omega
  · rw [if_neg ‹_›]
    split at h
    · rw [if_pos ‹_›]
      cases n with
      | zero => cases h
      | succ n =>
        cases h
        rw [Nat.add_right_comm]
    · cases h
      rw [if_neg ‹_›]

theorem opened_of_flat {ch : Char} (h : isFlat ch = true) (n : Nat) : opened ch n = some n := by
  have hout (cs : List Char) (hcs : cs.any isFlat = false) : cs.contains ch = false := by
    rw [List.contains_eq_mem, decide_eq_false_iff_not]
    exact fun hmem => List.any_eq_false.mp hcs ch hmem h
  have hopen := hout ['(', '[', '\x7b'] (by decide)
  have hclose := hout [')', ']', '\x7d'] (by decide)
  simp only [opened, hopen, hclose, Bool.false_eq_true, if_false]

namespace Path

variable {n m k : Nat} {c d e : Cursor}

theorem shift (h : Path n c m d) (k : Nat) : Path (n + k) c (m + k) d := by
  induction h with
  | refl => exact .refl
  | step hch hopened _ ih => exact .step hch (opened_add hopened k) ih

theorem trans (hcd : Path n c m d) (hde : Path m d k e) : Path n c k e := by
  induction hcd with
  | refl => exact hde
  | step hch hopened _ ih => exact .step hch hopened (ih hde)

theorem reaches (h : Path n c m d) : c.Reaches d := by
  induction h with
  | refl => exact .refl _
  | step _ _ _ ih => exact (Cursor.reaches_advance _ _).trans ih

/-- There is one way only. -/
theorem compare {n' : Nat} {d' : Cursor} (h : Path n c m d) (h' : Path n c n' d') :
    Path m d n' d' ∨ Path n' d' m d := by
  induction h with
  | refl => exact .inl h'
  | step hch hopened hrest ih =>
    cases h' with
    | refl => exact .inr (.step hch hopened hrest)
    | step hch' hopened' hrest' =>
      obtain rfl := Option.some.inj (hch.symm.trans hch')
      obtain rfl := Option.some.inj (hopened.symm.trans hopened')
      exact ih hrest'

theorem eq_of_left_eq (hc : c.Counted) (h : Path n c m d) (hleft : d.left = c.left) :
    d = c ∧ m = n := by
  cases h with
  | refl => exact ⟨rfl, rfl⟩
  | step hch hopened hrest =>
    have hle : d.left ≤ c.past.left :=
      hrest.reaches.left_le ((Cursor.reaches_advance c _).counted hc)
    have hpast : c.past.left = c.left - c.stride := Cursor.advance_left hc _
    have hpos := Cursor.stride_pos hc
    have hne : 0 < c.left := by
      rw [hc]
      cases hrest : c.rest with
      | nil => simp [hrest] at hch
      | cons => simp
    omega

theorem rest_of_le {n' : Nat} (hc : c.Counted) (hd : Path n c m d) (he : Path n c n' e)
    (hle : e.left ≤ d.left) : Path m d n' e := by
  rcases hd.compare he with h | h
  · exact h
  · have hleft : d.left = e.left :=
      Nat.le_antisymm (h.reaches.left_le (he.reaches.counted hc)) hle
    obtain ⟨rfl, rfl⟩ := h.eq_of_left_eq (he.reaches.counted hc) hleft
    exact .refl

theorem one {ch : Char} (hch : c.rest.head? = some ch)
    (hquotes : ch ≠ '"' ∧ ch ≠ '\'' ∧ ch ≠ Char.ofNat 0x60) (hcomment : commentLength? c.rest = none)
    (hopened : opened ch n = some m) : Path n c m c.next := by
  have hpast : c.past = c.next := by rw [Cursor.past, Cursor.stride_eq_one hch hquotes hcomment]; rfl
  exact .step hch hopened (hpast ▸ .refl)

theorem flat {ch : Char} (hch : c.rest.head? = some ch) (hflat : isFlat ch = true) :
    Path n c n c.next := by
  have hout {d : Char} (hd : isFlat d = false) : ch ≠ d := by
    rintro rfl
    exact absurd hflat (by simp [hd])
  have hcomment : commentLength? c.rest = none := by
    refine commentLength?_of_head fun hslash => ?_
    have hne : ch ≠ '/' := hout (by decide)
    exact hne (Option.some.inj (hch.symm.trans hslash))
  exact one hch ⟨hout (by decide), hout (by decide), hout (by decide)⟩ hcomment
    (opened_of_flat hflat n)

theorem of_endsItem (h : endsItem c = true) : Path n c n c.next := by
  obtain ⟨ch, cs, hrest, hkind⟩ := exists_cons_of_endsItem h
  have hflat : isFlat ch = true := by
    rcases hkind with rfl | rfl | rfl <;> decide
  exact .flat (by rw [hrest]; rfl) hflat

theorem run {count : Nat} (hcount : count ≤ c.rest.length)
    (hflat : ∀ ch ∈ c.rest.take count, isFlat ch = true) : Path n c n (c.advance count) := by
  induction count generalizing c with
  | zero => exact .refl
  | succ count ih =>
    cases hrest : c.rest with
    | nil => simp [hrest] at hcount
    | cons ch cs =>
      have hnext : c.next.rest = cs := by rw [Cursor.next_rest, hrest]; rfl
      rw [hrest] at hcount hflat
      have hhere : Path n c n c.next := flat (by rw [hrest]; rfl) (hflat ch (by simp))
      refine hhere.trans (ih ?_ fun d hd => hflat d ?_)
      · rw [hnext]
        simpa using hcount
      · rw [hnext] at hd
        simp [hd]

theorem comment {count : Nat} (h : commentLength? c.rest = some count) :
    Path n c n (c.advance count) := by
  have hch : c.rest.head? = some '/' := by
    unfold commentLength? at h
    split at h
    · next heq => rw [heq]; rfl
    · next heq => rw [heq]; rfl
    · cases h
  have hpast : c.past = c.advance count := by rw [Cursor.past, Cursor.stride, h]
  exact .step hch rfl (hpast ▸ .refl)

theorem rune {count : Nat} (h : runeLength? c.rest = some count) :
    Path n c n (c.advance count) := by
  have hch : c.rest.head? = some '\'' := by
    unfold runeLength? at h
    split at h
    · next heq => rw [heq]; rfl
    · next heq => rw [heq]; rfl
    · cases h
  have hcomment : commentLength? c.rest = none := commentLength?_of_head (by rw [hch]; simp)
  have hpast : c.past = c.advance count := by
    simp only [Cursor.past, Cursor.stride, hcomment, h]
  exact .step hch rfl (hpast ▸ .refl)

theorem string (hc : c.Counted) (h : passString c = some d) : Path n c n d := by
  obtain ⟨ch, hch, hquote⟩ : ∃ ch, c.rest.head? = some ch ∧ (ch = '"' ∨ ch = Char.ofNat 0x60) := by
    rw [passString] at h
    split at h
    · next heq => exact ⟨'"', by rw [heq]; rfl, .inl rfl⟩
    · next heq =>
      split at h
      · next hraw => exact ⟨_, by rw [heq]; rfl, .inr (by simpa using hraw)⟩
      · cases h
    · cases h
  have hout {e : Char} (he : '"' ≠ e ∧ Char.ofNat 0x60 ≠ e) : c.rest.head? ≠ some e := by
    rw [hch]
    rcases hquote with rfl | rfl
    · exact fun heq => he.1 (Option.some.inj heq)
    · exact fun heq => he.2 (Option.some.inj heq)
  have hcomment : commentLength? c.rest = none := commentLength?_of_head (hout (by decide))
  have hrune : runeLength? c.rest = none := runeLength?_of_head (hout (by decide))
  have hstride : c.stride = c.left - d.left := by simp [Cursor.stride, hcomment, hrune, h]
  have hpast : c.past = d := by
    rw [Cursor.past, hstride, (Cursor.reaches_passString h).advance_eq hc]
  have hopened : opened ch n = some n := by
    rcases hquote with rfl | rfl <;> rfl
  exact .step hch hopened (hpast ▸ .refl)

theorem skipFrom (pastLines : Bool) (fuel : Nat) (c : Cursor) :
    Path n c n (skipFrom pastLines fuel c).2 := by
  fun_induction Go.skipFrom pastLines fuel c with
  | case1 c => exact .refl
  | case2 => exact .refl
  | case3 fuel c ch cs hrest hblank ih =>
    have hflat : isFlat ch = true := by
      simp only [isLineBlank, Bool.or_eq_true, Bool.and_eq_true, beq_iff_eq] at hblank
      rcases hblank with ((((rfl | rfl) | rfl) | rfl) | rfl) | ⟨-, rfl⟩ <;> decide
    exact (flat (by rw [hrest]; rfl) hflat).trans ih
  | case4 => exact .refl
  | case5 fuel c ch cs hrest hblank count hcount behind comments last hskip ih =>
    rw [hskip] at ih
    exact (comment (hrest ▸ hcount)).trans ih

end Path

theorem Gap.blank_eq_false {pastLines : Bool} {c d : Cursor} {spans : List Span}
    (h : Gap pastLines c spans d) :
    ∀ ch, d.rest.head? = some ch → isGapBlank pastLines ch = false := by
  induction h with
  | done hblank _ => exact hblank
  | blank _ _ _ ih => exact ih
  | comment _ _ ih => exact ih

theorem Gap.commentLength?_eq_none {pastLines : Bool} {c d : Cursor} {spans : List Span}
    (h : Gap pastLines c spans d) : commentLength? d.rest = none := by
  induction h with
  | done _ hcomment => exact hcomment
  | blank _ _ _ ih => exact ih
  | comment _ _ ih => exact ih

theorem commentLength?_skip {c : Cursor} (hc : c.Counted) : commentLength? c.skip.rest = none := by
  have hskip : ∃ spans, Gap true c spans c.skip ∧ _ := gap_skipFrom (Nat.le_of_eq hc.symm)
  obtain ⟨spans, hgap, -⟩ := hskip
  exact hgap.commentLength?_eq_none

/-! ## Forms that close what they open -/

def signLevel (sign : List Char) (n : Nat) : Option Nat :=
  match sign with
  | [] => none
  | ch :: cs =>
    if cs.all isFlat && !(['"', '\'', Char.ofNat 0x60].contains ch) then opened ch n else none

namespace Form

/-- The number of brackets that are open behind a form, if no reading closes one that is not open
and all readings leave the same number. -/
def level : Form → Nat → Option Nat
  | .sign s longer, n => if longer.all (·.toList.all isFlat) then signLevel s.toList n else none
  | .seq f g, n => (f.level n).bind g.level
  | .alt f g, n => if f.level n = g.level n then f.level n else none
  | .many f, n => if f.level n = some n then some n else none
  | .sameLine f, n | .weighted _ f, n => f.level n
  | _, n => some n

end Form

theorem Phrase.level_form (p : Phrase) : p.form.level 0 = some 0 := by
  cases p with
  | operand a =>
    rcases a with ⟨line, header, ending, lead, guarded⟩
    cases line <;> cases header <;> cases guarded <;> rfl
  | suffix a =>
    rcases a with ⟨line, header, ending, lead, guarded⟩
    cases line <;> cases guarded <;> rfl
  | expression a =>
    rcases a with ⟨line, header, ending, lead, guarded⟩
    cases line <;>  rfl
  | type closing beside => cases closing <;> cases beside <;> rfl
  | _ => rfl

/-! ## Readings close what they open -/

theorem exists_of_signLevel {sign : List Char} {n m : Nat} (h : signLevel sign n = some m) :
    ∃ ch cs, sign = ch :: cs ∧ (∀ c ∈ cs, isFlat c = true) ∧
      (ch ≠ '"' ∧ ch ≠ '\'' ∧ ch ≠ Char.ofNat 0x60) ∧ opened ch n = some m := by
  unfold signLevel at h
  split at h
  · cases h
  · next ch cs =>
    split at h
    · next hchars =>
      simp only [Bool.and_eq_true, List.all_eq_true, Bool.not_eq_true', List.contains_eq_mem,
        decide_eq_false_iff_not, List.mem_cons, List.not_mem_nil, or_false, not_or] at hchars
      exact ⟨ch, cs, rfl, hchars.1, hchars.2, h⟩
    · cases h

theorem signLevel_add {sign : List Char} {n m : Nat} (h : signLevel sign n = some m) (k : Nat) :
    signLevel sign (n + k) = some (m + k) := by
  unfold signLevel at h ⊢
  split at h
  · cases h
  · split at h
    · rw [if_pos ‹_›]
      exact opened_add h k
    · cases h

theorem signLevel_binaryOperators (n : Nat) : ∀ s ∈ binaryOperators, signLevel s.toList n = some n := by
  have hzero : ∀ s ∈ binaryOperators, signLevel s.toList 0 = some 0 := by decide
  intro s hs
  simpa using signLevel_add (hzero s hs) n

namespace Path

variable {n m : Nat} {c d : Cursor}

theorem sign {s : String} (hlevel : signLevel s.toList n = some m)
    (hcomment : commentLength? c.rest = none) (h : c.passSign s = some d) : Path n c m d := by
  rw [Cursor.passSign] at h
  split at h
  · next hprefix =>
    cases h
    obtain ⟨rest, hrest⟩ := List.isPrefixOf_iff_prefix.mp hprefix
    obtain ⟨ch, cs, hsign, hflat, hquotes, hopened⟩ := exists_of_signLevel hlevel
    have hlength : s.length = cs.length + 1 := by
      rw [← String.length_toList, hsign]
      rfl
    have hnext : c.next.rest = cs ++ rest := by
      rw [Cursor.next_rest, ← hrest, hsign]
      rfl
    have hfirst : Path n c m c.next :=
      one (by rw [← hrest, hsign]; rfl) hquotes hcomment hopened
    rw [hlength]
    refine hfirst.trans (run (by simp [hnext]) fun e he => hflat e ?_)
    rwa [hnext, List.take_left] at he
  · cases h

end Path

namespace Form

variable {fuel n m : Nat} {f : Form} {c d : Cursor}

theorem path_of_mem_tokenEnds (hc : c.Counted) (hcomment : commentLength? c.rest = none)
    (hlevel : f.level n = some m) (h : d ∈ f.tokenEnds c) : Path n c m d := by
  unfold tokenEnds at h
  split at h
  · cases hlevel
    dsimp only at h
    split at h
    · rw [List.mem_singleton.mp h]
      exact .run (wordLength_le _) (flat_of_word _)
    · cases h
  · cases hlevel
    dsimp only at h
    split at h
    · cases h
    · rw [List.mem_singleton.mp h]
      exact .run (wordLength_le _) (flat_of_word _)
  · rw [level] at hlevel
    split at h
    · cases h
    · split at hlevel
      · exact .sign hlevel hcomment (Option.mem_toList.mp h)
      · cases hlevel
  · cases hlevel
    split at h
    · next s hs =>
      split at h
      · next hoperator =>
        exact .sign (signLevel_binaryOperators n s (by simpa using hoperator)) hcomment
          (Option.mem_toList.mp h)
      · cases h
    · cases h
  · cases hlevel
    cases hlength : numberLength? c.rest with
    | none => simp [hlength, Cursor.passLength] at h
    | some count =>
      rw [hlength] at h
      rw [List.mem_singleton.mp h]
      have hbounds := numberLength?_bounds hlength
      exact .run hbounds.2.1 hbounds.2.2
  · cases hlevel
    cases hlength : runeLength? c.rest with
    | none => simp [hlength, Cursor.passLength] at h
    | some count =>
      rw [hlength] at h
      rw [List.mem_singleton.mp h]
      exact .rune hlength
  · cases hlevel
    exact .string hc (Option.mem_toList.mp h)
  · cases h

/-- A reading leads along the source and leaves as many open brackets as its form says. -/
theorem path_of_mem_ends (hc : c.Counted) (hlevel : f.level n = some m) (h : d ∈ f.ends fuel c) :
    Path n c m d := by
  induction fuel generalizing f n m c d with
  | zero => cases h
  | succ fuel ih =>
    unfold ends at h
    split at h
    · cases hlevel
      exact List.mem_singleton.mp h ▸ .refl
    · cases hlevel
      have hskip : Path n c n c.skipInLine := .skipFrom false c.left c
      obtain ⟨hends, rfl⟩ := endsItem_of_mem_terminatorEnds h
      exact hskip.trans (.of_endsItem hends)
    · next p =>
      cases hlevel
      simpa using (ih hc p.level_form h).shift n
    · obtain ⟨k, hf, hg⟩ := Option.bind_eq_some_iff.mp hlevel
      rcases Cursor.mem_foldl_union h with hd | ⟨e, he, hd⟩
      · cases hd
      · have hce := ih hc hf he
        exact hce.trans (ih (hce.reaches.counted hc) hg hd)
    · rw [level] at hlevel
      split at hlevel
      · next hboth =>
        rcases Cursor.mem_union h with hd | hd
        · exact ih hc hlevel hd
        · exact ih hc (hboth ▸ hlevel) hd
      · cases hlevel
    · rw [level] at hlevel
      split at hlevel
      · next hsame =>
        cases hlevel
        have hself : ∀ e ∈ [c], Path n c n e := fun e he => List.mem_singleton.mp he ▸ .refl
        exact spread_preserves
          (fun e he e' he' => he.trans (ih (he.reaches.counted hc) hsame he')) hself hself d h
      · cases hlevel
    · next g =>
      have hg : g.level n = some m := hlevel
      have hskip : Path n c n c.skipInLine := .skipFrom false c.left c
      dsimp only at h
      split at h
      · cases h
      · exact hskip.trans (ih (hskip.reaches.counted hc) hg h)
    · cases hlevel
      split at h
      · exact List.mem_singleton.mp h ▸ .refl
      · cases h
    · next g =>
      have hg : g.level n = some m := hlevel
      exact ih hc hg h
    · have hskip : Path n c n c.skip := .skipFrom true c.left c
      exact hskip.trans (path_of_mem_tokenEnds (hskip.reaches.counted hc)
        (commentLength?_skip hc) hlevel h)

end Form

end SourceBundle.Go
