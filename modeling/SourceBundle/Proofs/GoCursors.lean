import SourceBundle.GoFile

/-!
# Where reading leads

Reading a Go source only goes forward: a scanner, a form or a list of forms that begins at a cursor
ends at that cursor or further on in the same source. Rows therefore never go back, and the count of
the characters ahead stays right.
-/

namespace SourceBundle.Go

namespace Cursor

/-- The second cursor is the first one or stands further on in the same source. -/
def Reaches (c d : Cursor) : Prop :=
  ∃ n, c.advance n = d

theorem Reaches.refl (c : Cursor) : c.Reaches c :=
  ⟨0, rfl⟩

theorem reaches_advance (c : Cursor) (n : Nat) : c.Reaches (c.advance n) :=
  ⟨n, rfl⟩

theorem reaches_next (c : Cursor) : c.Reaches c.next :=
  reaches_advance c 1

theorem advance_add (c : Cursor) (m n : Nat) : c.advance (m + n) = (c.advance m).advance n := by
  induction m generalizing c with
  | zero => rw [Nat.zero_add, advance]
  | succ m ih => rw [Nat.add_right_comm, advance, advance, ih]

theorem Reaches.trans {c d e : Cursor} (hcd : c.Reaches d) (hde : d.Reaches e) : c.Reaches e := by
  obtain ⟨m, rfl⟩ := hcd
  obtain ⟨n, rfl⟩ := hde
  exact ⟨m + n, advance_add c m n⟩

theorem Reaches.preserves {P : Cursor → Prop} (hnext : ∀ c, P c → P c.next) {c d : Cursor}
    (h : c.Reaches d) (hc : P c) : P d := by
  obtain ⟨n, rfl⟩ := h
  induction n generalizing c with
  | zero => exact hc
  | succ n ih => exact ih (hnext c hc)

theorem row_le_next (c : Cursor) : c.row ≤ c.next.row := by
  rw [next]
  split
  · exact Nat.le_refl _
  · dsimp only
    split <;> omega

theorem Reaches.row_le {c d : Cursor} (h : c.Reaches d) : c.row ≤ d.row :=
  h.preserves (fun e he => Nat.le_trans he (row_le_next e)) (Nat.le_refl _)

theorem next_row {c : Cursor} (h : c.rest.head? ≠ some '\n') : c.next.row = c.row := by
  rw [next]
  split
  · rfl
  · next ch cs hrest => simpa [hrest] using h

def Counted (c : Cursor) : Prop :=
  c.left = c.rest.length

theorem counted_ofText (text : List Char) : (ofText text).Counted := by
  unfold ofText
  split <;> rfl

theorem Counted.next {c : Cursor} (h : c.Counted) : c.next.Counted := by
  rw [Cursor.next, Counted]
  split
  · exact h
  · next ch cs hrest => simp [h.trans (congrArg List.length hrest)]

theorem Reaches.counted {c d : Cursor} (h : c.Reaches d) (hc : c.Counted) : d.Counted :=
  h.preserves (P := Counted) (fun _ => Counted.next) hc

/-! ## Skipping -/

theorem reaches_skipFrom (pastLines : Bool) (fuel : Nat) (c : Cursor) :
    c.Reaches (skipFrom pastLines fuel c).2 := by
  fun_induction skipFrom pastLines fuel c with
  | case1 c => exact .refl c
  | case2 => exact .refl _
  | case3 fuel c ch cs hrest hblank ih => exact (reaches_next c).trans ih
  | case4 => exact .refl _
  | case5 fuel c ch cs hrest hblank n hn behind comments last hskip ih =>
    rw [hskip] at ih
    exact (reaches_advance c n).trans ih

theorem reaches_skip (c : Cursor) : c.Reaches c.skip :=
  reaches_skipFrom true c.left c

theorem reaches_skipInLine (c : Cursor) : c.Reaches c.skipInLine :=
  reaches_skipFrom false c.left c

/-! ## Strings -/

theorem reaches_passRaw {fuel : Nat} {c d : Cursor} (h : passRaw fuel c = some d) :
    c.Reaches d := by
  fun_induction passRaw fuel c with
  | case1 => cases h
  | case2 => cases h
  | case3 fuel c ch cs hrest hquote =>
    cases h
    exact reaches_next c
  | case4 fuel c ch cs hrest hquote ih => exact (reaches_next c).trans (ih h)

theorem reaches_passBlanks (fuel : Nat) (c : Cursor) :
    c.Reaches (passInterpreted.passBlanks fuel c) := by
  fun_induction passInterpreted.passBlanks fuel c with
  | case1 c => exact .refl c
  | case2 fuel c ch cs hrest hblank ih => exact (reaches_next c).trans ih
  | case3 => exact .refl _
  | case4 => exact .refl _

theorem reaches_passInterpreted {fuel : Nat} {c d : Cursor} (h : passInterpreted fuel c = some d) :
    c.Reaches d := by
  induction fuel generalizing c with
  | zero => cases h
  | succ fuel ih =>
    rw [passInterpreted] at h
    split at h
    · cases h
    · cases h
      exact reaches_next c
    · obtain ⟨n, -, hn⟩ := Option.bind_eq_some_iff.mp h
      exact (reaches_advance c (n + 1)).trans (ih hn)
    · obtain ⟨n, -, hn⟩ := Option.bind_eq_some_iff.mp h
      exact ((reaches_passBlanks fuel c).trans (reaches_advance _ n)).trans (ih hn)
    · exact (reaches_next c).trans (ih h)

theorem reaches_passString {c d : Cursor} (h : passString c = some d) : c.Reaches d := by
  rw [passString] at h
  split at h
  · exact (reaches_next c).trans (reaches_passInterpreted h)
  · split at h
    · exact (reaches_next c).trans (reaches_passRaw h)
    · cases h
  · cases h

/-! ## Lists of ends -/

theorem mem_union {as bs : List Cursor} {d : Cursor} (h : d ∈ union as bs) : d ∈ as ∨ d ∈ bs := by
  induction bs generalizing as with
  | nil => exact .inl h
  | cons b bs ih =>
    rcases ih h with hd | hd
    · rw [addEnd] at hd
      split at hd
      · exact .inl hd
      · rcases List.mem_append.mp hd with hd | hd
        · exact .inl hd
        · exact .inr (List.mem_cons.mpr (.inl (List.mem_singleton.mp hd)))
    · exact .inr (List.mem_cons_of_mem b hd)

theorem mem_foldl_union {ends : Cursor → List Cursor} {cs found : List Cursor} {d : Cursor}
    (h : d ∈ cs.foldl (fun found c => union found (ends c)) found) :
    d ∈ found ∨ ∃ c ∈ cs, d ∈ ends c := by
  induction cs generalizing found with
  | nil => exact .inl h
  | cons c cs ih =>
    rcases ih h with hd | ⟨e, he, hd⟩
    · rcases mem_union hd with hd | hd
      · exact .inl hd
      · exact .inr ⟨c, List.mem_cons_self, hd⟩
    · exact .inr ⟨e, List.mem_cons_of_mem c he, hd⟩

end Cursor

def endsItem (c : Cursor) : Bool :=
  c.rest.head?.any fun ch => ch == '\n' || ch == ';' || ch == '\x00'

theorem exists_cons_of_endsItem {c : Cursor} (h : endsItem c = true) :
    ∃ ch cs, c.rest = ch :: cs ∧ (ch = '\n' ∨ ch = ';' ∨ ch = '\x00') := by
  rw [endsItem, Option.any_eq_true] at h
  obtain ⟨ch, hch, hkind⟩ := h
  obtain ⟨cs, hrest⟩ := List.head?_eq_some_iff.mp hch
  simp only [Bool.or_eq_true, beq_iff_eq, or_assoc] at hkind
  exact ⟨ch, cs, hrest, hkind⟩

theorem rest_ne_nil_of_endsItem {c : Cursor} (h : endsItem c = true) : c.rest ≠ [] := by
  obtain ⟨ch, cs, hrest, -⟩ := exists_cons_of_endsItem h
  simp [hrest]

theorem not_endsItem {c : Cursor} (hline : ∀ cs, c.rest = '\n' :: cs → False)
    (hsemicolon : ∀ cs, c.rest = ';' :: cs → False) (hnul : ∀ cs, c.rest = '\x00' :: cs → False) :
    ¬endsItem c = true := by
  intro hends
  obtain ⟨ch, cs, hrest, hkind⟩ := exists_cons_of_endsItem hends
  rcases hkind with rfl | rfl | rfl
  · exact hline cs hrest
  · exact hsemicolon cs hrest
  · exact hnul cs hrest

namespace Form

open Cursor

theorem reaches_of_mem_tokenEnds {c d : Cursor} {f : Form} (h : d ∈ f.tokenEnds c) :
    c.Reaches d := by
  have sign {s : String} (hd : d ∈ (c.passSign s).toList) : c.Reaches d := by
    rw [Option.mem_toList, passSign] at hd
    split at hd
    · cases hd
      exact reaches_advance c _
    · cases hd
  have length {n : Option Nat} (hd : d ∈ c.passLength n) : c.Reaches d := by
    cases n with
    | none => cases hd
    | some n => exact List.mem_singleton.mp hd ▸ reaches_advance c n
  unfold tokenEnds at h
  split at h
  · dsimp only at h
    split at h
    · exact List.mem_singleton.mp h ▸ reaches_advance c _
    · cases h
  · dsimp only at h
    split at h
    · cases h
    · exact List.mem_singleton.mp h ▸ reaches_advance c _
  · split at h
    · cases h
    · exact sign h
  · split at h
    · split at h
      · exact sign h
      · cases h
    · cases h
  · exact length h
  · exact length h
  · exact reaches_passString (Option.mem_toList.mp h)
  · cases h

theorem terminatorEnds_eq (c : Cursor) :
    terminatorEnds c = if endsItem c.skipInLine then [c.skipInLine.next] else [] := by
  rw [terminatorEnds]
  split
  iterate 3
    · next hrest =>
      rw [endsItem, hrest]
      rfl
  · next hline hsemicolon hnul => exact (if_neg (not_endsItem hline hsemicolon hnul)).symm

theorem endsItem_of_mem_terminatorEnds {c d : Cursor} (h : d ∈ terminatorEnds c) :
    endsItem c.skipInLine = true ∧ d = c.skipInLine.next := by
  rw [terminatorEnds_eq] at h
  split at h
  · next hends => exact ⟨hends, List.mem_singleton.mp h⟩
  · cases h

theorem reaches_of_mem_terminatorEnds {c d : Cursor} (h : d ∈ terminatorEnds c) : c.Reaches d := by
  obtain ⟨-, rfl⟩ := endsItem_of_mem_terminatorEnds h
  exact (reaches_skipInLine c).trans (reaches_next c.skipInLine)

/-- What every step keeps holds wherever the steps lead. -/
theorem spread_preserves {P : Cursor → Prop} {step : Cursor → List Cursor}
    (hstep : ∀ d, P d → ∀ e ∈ step d, P e) {count : Nat} {todo found : List Cursor}
    (htodo : ∀ d ∈ todo, P d) (hfound : ∀ d ∈ found, P d) :
    ∀ d ∈ spread step count todo found, P d := by
  fun_induction spread step count todo found with
  | case1 => exact hfound
  | case2 => exact hfound
  | case3 count d todo found fresh ih =>
    have hfresh : ∀ e ∈ fresh, P e := fun e he =>
      hstep d (htodo d List.mem_cons_self) e (List.mem_filter.mp he).1
    refine ih (fun e he => ?_) (fun e he => ?_)
    · rcases List.mem_append.mp he with he | he
      · exact htodo e (List.mem_cons_of_mem d he)
      · exact hfresh e he
    · rcases List.mem_append.mp he with he | he
      · exact hfound e he
      · exact hfresh e he

theorem reaches_of_mem_ends {fuel : Nat} {f : Form} {c d : Cursor} (h : d ∈ f.ends fuel c) :
    c.Reaches d := by
  induction fuel generalizing f c d with
  | zero => cases h
  | succ fuel ih =>
    unfold ends at h
    split at h
    · exact List.mem_singleton.mp h ▸ Reaches.refl c
    · exact reaches_of_mem_terminatorEnds h
    · exact ih h
    · rcases mem_foldl_union h with hd | ⟨e, he, hd⟩
      · cases hd
      · exact (ih he).trans (ih hd)
    · rcases mem_union h with hd | hd
      · exact ih hd
      · exact ih hd
    · have hself : ∀ e ∈ [c], c.Reaches e := fun e he => List.mem_singleton.mp he ▸ Reaches.refl c
      exact spread_preserves (fun _ hd _ he => hd.trans (ih he)) hself hself d h
    · dsimp only at h
      split at h
      · cases h
      · exact (reaches_skipInLine c).trans (ih h)
    · split at h
      · exact List.mem_singleton.mp h ▸ Reaches.refl c
      · cases h
    · exact ih h
    · exact (reaches_skip c).trans (reaches_of_mem_tokenEnds h)

theorem exists_of_mem_punctuation {s : String} {ch : Char} (hs : s.toList = [ch]) {fuel : Nat}
    {c d : Cursor} (h : d ∈ (punctuation s).ends fuel c) :
    c.skip.rest.head? = some ch ∧ d = c.skip.next := by
  cases fuel with
  | zero => cases h
  | succ fuel =>
    have hsign : c.skip.passSign s = some d := Option.mem_toList.mp h
    rw [passSign, hs] at hsign
    split at hsign
    · next hprefix =>
      cases hsign
      obtain ⟨cs, hcs⟩ := List.isPrefixOf_iff_prefix.mp hprefix
      rw [← String.length_toList, hs]
      exact ⟨by rw [← hcs]; rfl, rfl⟩
    · cases hsign

end Form

theorem exists_of_mem_readings_cons {fuel : Nat} {f : Form} {fs : List Form} {c : Cursor}
    {ds : List Cursor} (h : ds ∈ readings fuel (f :: fs) c) :
    ∃ e es, ds = e :: es ∧ e ∈ f.ends fuel c ∧ es ∈ readings fuel fs e := by
  rw [readings] at h
  obtain ⟨e, he, hds⟩ := List.mem_flatMap.mp h
  obtain ⟨es, hes, rfl⟩ := List.mem_map.mp hds
  exact ⟨e, es, rfl, he, hes⟩

theorem reaches_of_mem_readings {fuel : Nat} {fs : List Form} {c : Cursor} {ds : List Cursor}
    (h : ds ∈ readings fuel fs c) : ∀ d ∈ ds, c.Reaches d := by
  induction fs generalizing c ds with
  | nil =>
    rw [readings, List.mem_singleton] at h
    simp [h]
  | cons f fs ih =>
    obtain ⟨e, es, rfl, he, hes⟩ := exists_of_mem_readings_cons h
    have hce := Form.reaches_of_mem_ends he
    intro d hd
    rcases List.mem_cons.mp hd with rfl | hd
    · exact hce
    · exact hce.trans (ih hes d hd)

theorem reaches_of_readingTo {fuel : Nat} {fs : List Form} {c stop : Cursor} {ds : List Cursor}
    (h : readingTo fuel fs c stop = some ds) : ∀ d ∈ ds, c.Reaches d :=
  reaches_of_mem_readings (List.mem_of_find?_eq_some h)

end SourceBundle.Go
