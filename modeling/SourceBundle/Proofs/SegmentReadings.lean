import Mathlib.Data.List.Nodup
import Mathlib.Data.List.Perm.Subperm
import SourceBundle.Proofs.GoSegments

/-!
# Reading a segment

What is read from a place of a segment and ends in it is what is read there if the segment stands
alone: the ends of forms, the ways to read forms one after another, and the weights of readings.
-/

namespace SourceBundle.Go

/-! ## Lists of ends -/

def Distinct (cs : List Cursor) : Prop :=
  (cs.map Cursor.left).Nodup

theorem distinct_of_length_le {cs : List Cursor} (h : cs.length ≤ 1) : Distinct cs := by
  match cs, h with
  | [], _ => exact List.nodup_nil
  | [c], _ => exact List.nodup_singleton _

theorem Distinct.addEnd {cs : List Cursor} (h : Distinct cs) (c : Cursor) :
    Distinct (Cursor.addEnd cs c) := by
  rw [Cursor.addEnd]
  split
  · exact h
  · next hnew =>
    rw [Distinct, List.map_append]
    refine List.nodup_append.mpr ⟨h, List.nodup_singleton _, fun n hn m hm hnm => hnew ?_⟩
    obtain ⟨d, hd, rfl⟩ := List.mem_map.mp hn
    rw [List.map_singleton, List.mem_singleton] at hm
    exact List.any_eq_true.mpr ⟨d, hd, beq_iff_eq.mpr (hnm.trans hm)⟩

theorem Distinct.union {as : List Cursor} (h : Distinct as) (bs : List Cursor) :
    Distinct (Cursor.union as bs) := by
  induction bs generalizing as with
  | nil => exact h
  | cons b bs ih => exact ih (h.addEnd b)

theorem distinct_foldl_union {α : Type} (ends : α → List Cursor) (as : List α) {found : List Cursor}
    (h : Distinct found) :
    Distinct (as.foldl (fun found a => Cursor.union found (ends a)) found) := by
  induction as generalizing found with
  | nil => exact h
  | cons a as ih => exact ih (h.union _)

namespace Form

theorem length_tokenEnds_le (f : Form) (c : Cursor) : (f.tokenEnds c).length ≤ 1 := by
  have hlist (found : Option Cursor) : found.toList.length ≤ 1 := by cases found <;> simp
  have hlength (length : Option Nat) : (c.passLength length).length ≤ 1 := by
    cases length <;> simp [Cursor.passLength]
  unfold tokenEnds
  split
  · dsimp only
    split <;> simp
  · dsimp only
    split <;> simp
  · split
    · simp
    · exact hlist _
  · split
    · split
      · exact hlist _
      · simp
    · simp
  · exact hlength _
  · exact hlength _
  · exact hlist _
  · simp

def fresh (step : Cursor → List Cursor) (c : Cursor) (found : List Cursor) : List Cursor :=
  (step c).filter fun d => d.left < c.left && !found.any (·.left == d.left)

theorem distinct_append_fresh {step : Cursor → List Cursor} {c : Cursor} {found : List Cursor}
    (hstep : Distinct (step c)) (h : Distinct found) : Distinct (found ++ fresh step c found) := by
  rw [Distinct, List.map_append]
  have hfresh : Distinct (fresh step c found) :=
    (List.filter_sublist.map Cursor.left).nodup hstep
  refine List.nodup_append.mpr ⟨h, hfresh, fun n hn m hm hnm => ?_⟩
  obtain ⟨d, hd, rfl⟩ := List.mem_map.mp hn
  obtain ⟨e, he, rfl⟩ := List.mem_map.mp hm
  have hnew := (List.mem_filter.mp he).2
  rw [Bool.and_eq_true, Bool.not_eq_true', List.any_eq_false] at hnew
  exact hnew.2 d hd (beq_iff_eq.mpr hnm)

theorem distinct_spread {step : Cursor → List Cursor} (hstep : ∀ c, Distinct (step c)) {count : Nat}
    {todo found : List Cursor} (h : Distinct found) : Distinct (spread step count todo found) := by
  fun_induction spread step count todo found with
  | case1 => exact h
  | case2 => exact h
  | case3 count c todo found _ ih => exact ih (distinct_append_fresh (hstep c) h)

theorem distinct_ends (fuel : Nat) (f : Form) (c : Cursor) : Distinct (f.ends fuel c) := by
  induction fuel generalizing f c with
  | zero => exact List.nodup_nil
  | succ fuel ih =>
    unfold ends
    split
    · exact distinct_of_length_le (Nat.le_refl 1)
    · refine distinct_of_length_le ?_
      rw [terminatorEnds_eq]
      split <;> simp
    · exact ih _ _
    · exact distinct_foldl_union _ _ List.nodup_nil
    · exact (ih _ _).union _
    · exact distinct_spread (ih _) (distinct_of_length_le (Nat.le_refl 1))
    · dsimp only
      split
      · exact List.nodup_nil
      · exact ih _ _
    · split
      · exact distinct_of_length_le (Nat.le_refl 1)
      · exact List.nodup_nil
    · exact ih _ _
    · exact distinct_of_length_le (length_tokenEnds_le _ _)

/-- Steps lead from the places to do to all places found, without a bound on their number. -/
inductive Spreads (step : Cursor → List Cursor) : (todo found all : List Cursor) → Prop
  | done {found} : Spreads step [] found found
  | step {c todo found all}
      (hrest : Spreads step (todo ++ fresh step c found) (found ++ fresh step c found) all) :
      Spreads step (c :: todo) found all

theorem spreads_spread {step : Cursor → List Cursor} (hstep : ∀ c, Distinct (step c)) {count : Nat}
    {done todo found : List Cursor} {bound : Nat} (hdone : done ++ todo = found)
    (hfound : Distinct found) (hbound : ∀ d ∈ found, d.left < bound)
    (hcount : bound ≤ count + done.length) :
    Spreads step todo found (spread step count todo found) := by
  induction count generalizing done todo found with
  | zero =>
    have hsubset : found.map Cursor.left ⊆ List.range bound := by
      intro n hn
      obtain ⟨d, hd, rfl⟩ := List.mem_map.mp hn
      exact List.mem_range.mpr (hbound d hd)
    have hlength := (hfound.subperm hsubset).length_le
    rw [List.length_map, List.length_range, ← hdone, List.length_append] at hlength
    obtain rfl : todo = [] := List.length_eq_zero_iff.mp (by omega)
    exact .done
  | succ count ih =>
    cases todo with
    | nil => exact .done
    | cons c todo =>
      have hlater : (done ++ [c]) ++ (todo ++ fresh step c found) = found ++ fresh step c found := by
        rw [← hdone]
        simp
      refine .step (ih hlater (distinct_append_fresh (hstep c) hfound) ?_ ?_)
      · intro d hd
        rcases List.mem_append.mp hd with hd | hd
        · exact hbound d hd
        · have hmem : c ∈ found := hdone ▸ List.mem_append_right done List.mem_cons_self
          have hlt := (List.mem_filter.mp hd).2
          rw [Bool.and_eq_true, decide_eq_true_eq] at hlt
          exact Nat.lt_trans hlt.1 (hbound c hmem)
      · rw [List.length_append, List.length_singleton]
        omega

theorem spreads_self {step : Cursor → List Cursor} (hstep : ∀ c, Distinct (step c)) (c : Cursor) :
    Spreads step [c] [c] (spread step (c.left + 1) [c] [c]) :=
  spreads_spread hstep (List.nil_append [c]) (distinct_of_length_le (Nat.le_refl 1))
    (by simp) (Nat.le_refl _)

end Form

namespace Setting

variable {s : Setting} {n m k fuel : Nat} {c d : Cursor} {f : Form}

theorem near_congr (h : c.left = d.left) : s.near c = s.near d := by
  rw [near, near, h]

theorem filter_addEnd (cs : List Cursor) (c : Cursor) :
    (Cursor.addEnd cs c).filter s.near =
      if s.near c then Cursor.addEnd (cs.filter s.near) c else cs.filter s.near := by
  cases hc : s.near c with
  | false =>
    rw [Cursor.addEnd]
    split
    · simp
    · simp [hc]
  | true =>
    have hany : (cs.filter s.near).any (·.left == c.left) = cs.any (·.left == c.left) := by
      rw [List.any_filter]
      congr 1
      funext d
      cases hd : d.left == c.left with
      | false => simp
      | true => simp [near_congr (beq_iff_eq.mp hd), hc]
    rw [Cursor.addEnd, if_pos rfl, Cursor.addEnd, hany]
    split
    · rfl
    · simp [hc]

theorem filter_union (as bs : List Cursor) :
    (Cursor.union as bs).filter s.near = Cursor.union (as.filter s.near) (bs.filter s.near) := by
  induction bs generalizing as with
  | nil => rfl
  | cons b bs ih =>
    rw [Cursor.union, List.foldl_cons, ← Cursor.union, ih, filter_addEnd]
    cases hb : s.near b with
    | false =>
      rw [List.filter_cons_of_neg (by simp [hb])]
      rfl
    | true =>
      rw [List.filter_cons_of_pos hb]
      rfl

theorem map_addEnd (cs : List Cursor) (c : Cursor) :
    (Cursor.addEnd cs c).map s.cursor = Cursor.addEnd (cs.map s.cursor) (s.cursor c) := by
  have hany : (cs.map s.cursor).any (·.left == (s.cursor c).left) = cs.any (·.left == c.left) := by
    rw [List.any_map]
    congr 1
    funext d
    simp [beq_eq_decide]
  rw [Cursor.addEnd, Cursor.addEnd, hany]
  split
  · rfl
  · simp

theorem map_union (as bs : List Cursor) :
    (Cursor.union as bs).map s.cursor = Cursor.union (as.map s.cursor) (bs.map s.cursor) := by
  induction bs generalizing as with
  | nil => rfl
  | cons b bs ih =>
    rw [Cursor.union, List.foldl_cons, ← Cursor.union, ih, map_addEnd]
    rfl

theorem union_nil (as : List Cursor) : Cursor.union as [] = as := rfl

theorem filter_foldl_union {ends ends' : Cursor → List Cursor} {cs cs' found found' : List Cursor}
    (hnear : ∀ c ∈ cs, (ends' (s.cursor c)).filter s.near = (ends c).map s.cursor)
    (hfar : ∀ c ∈ cs', s.near c = false → (ends' c).filter s.near = [])
    (hcs : cs'.filter s.near = cs.map s.cursor) (hfound : found'.filter s.near = found.map s.cursor) :
    (cs'.foldl (fun found c => Cursor.union found (ends' c)) found').filter s.near =
      (cs.foldl (fun found c => Cursor.union found (ends c)) found).map s.cursor := by
  induction cs' generalizing cs found found' with
  | nil =>
    obtain rfl : cs = [] := List.map_eq_nil_iff.mp hcs.symm
    exact hfound
  | cons c' cs' ih =>
    have hfar' : ∀ c ∈ cs', s.near c = false → (ends' c).filter s.near = [] :=
      fun c hc => hfar c (List.mem_cons_of_mem _ hc)
    cases hc' : s.near c' with
    | false =>
      rw [List.filter_cons_of_neg (by simp [hc'])] at hcs
      refine ih hnear hfar' hcs ?_
      rw [filter_union, hfar c' List.mem_cons_self hc', union_nil, hfound]
    | true =>
      rw [List.filter_cons_of_pos hc'] at hcs
      cases cs with
      | nil => cases hcs
      | cons c cs =>
        obtain ⟨rfl, hrest⟩ := List.cons.inj hcs
        have hhere : (Cursor.union found' (ends' (s.cursor c))).filter s.near =
            (Cursor.union found (ends c)).map s.cursor := by
          rw [filter_union, hfound, hnear c List.mem_cons_self, map_union]
        rw [List.foldl_cons, List.foldl_cons]
        exact ih (fun d hd => hnear d (List.mem_cons_of_mem _ hd)) hfar' hrest hhere

theorem any_left_cursor {found found' : List Cursor} (h : found'.filter s.near = found.map s.cursor)
    (c : Cursor) :
    found'.any (·.left == (s.cursor c).left) = found.any (·.left == c.left) := by
  have hfilter : found'.any (·.left == (s.cursor c).left) =
      (found'.filter s.near).any (·.left == (s.cursor c).left) := by
    rw [List.any_filter]
    congr 1
    funext d
    cases hd : d.left == (s.cursor c).left with
    | false => simp
    | true => simp [near_congr (beq_iff_eq.mp hd)]
  rw [hfilter, h, List.any_map]
  congr 1
  funext d
  simp [beq_eq_decide]

theorem filter_fresh {step step' : Cursor → List Cursor} {found found' : List Cursor}
    (hstep : (step' (s.cursor c)).filter s.near = (step c).map s.cursor)
    (hfound : found'.filter s.near = found.map s.cursor) :
    (Form.fresh step' (s.cursor c) found').filter s.near =
      (Form.fresh step c found).map s.cursor := by
  rw [Form.fresh, List.filter_comm, hstep, List.filter_map]
  congr 1
  refine List.filter_congr fun d _ => ?_
  rw [Function.comp_apply, any_left_cursor hfound]
  simp

theorem filter_spreads {P P' : Cursor → Prop} {step step' : Cursor → List Cursor}
    {todo found all todo' found' all' : List Cursor}
    (hstep : ∀ c, P c → (step' (s.cursor c)).filter s.near = (step c).map s.cursor)
    (hkeep : ∀ c, P c → ∀ d ∈ step c, P d)
    (hfar : ∀ c, P' c → s.near c = false → ∀ d ∈ step' c, s.near d = false)
    (hkeep' : ∀ c, P' c → ∀ d ∈ step' c, P' d)
    (h' : Form.Spreads step' todo' found' all') (h : Form.Spreads step todo found all)
    (hP : ∀ c ∈ todo, P c) (hP' : ∀ c ∈ todo', P' c)
    (htodo : todo'.filter s.near = todo.map s.cursor)
    (hfound : found'.filter s.near = found.map s.cursor) :
    all'.filter s.near = all.map s.cursor := by
  induction h' generalizing todo found with
  | done =>
    obtain rfl : todo = [] := List.map_eq_nil_iff.mp htodo.symm
    cases h
    exact hfound
  | @step c' todo' found' all' _ ih =>
    have hfresh' : ∀ d ∈ todo' ++ Form.fresh step' c' found', P' d := by
      intro d hd
      rcases List.mem_append.mp hd with hd | hd
      · exact hP' d (List.mem_cons_of_mem _ hd)
      · exact hkeep' c' (hP' c' List.mem_cons_self) d (List.mem_filter.mp hd).1
    cases hc' : s.near c' with
    | false =>
      have hnone : (Form.fresh step' c' found').filter s.near = [] := by
        rw [List.filter_eq_nil_iff]
        intro d hd
        rw [hfar c' (hP' c' List.mem_cons_self) hc' d (List.mem_filter.mp hd).1]
        exact Bool.false_ne_true
      rw [List.filter_cons_of_neg (by simp [hc'])] at htodo
      refine ih h hP hfresh' ?_ ?_
      · rw [List.filter_append, hnone, List.append_nil, htodo]
      · rw [List.filter_append, hnone, List.append_nil, hfound]
    | true =>
      rw [List.filter_cons_of_pos hc'] at htodo
      cases h with
      | done => cases htodo
      | @step c todo _ _ hrest =>
        obtain ⟨rfl, hothers⟩ := List.cons.inj htodo
        have hc := hP c List.mem_cons_self
        have hfresh := filter_fresh (hstep c hc) hfound
        refine ih hrest (fun d hd => ?_) hfresh' ?_ ?_
        · rcases List.mem_append.mp hd with hd | hd
          · exact hP d (List.mem_cons_of_mem _ hd)
          · exact hkeep c hc d (List.mem_filter.mp hd).1
        · rw [List.filter_append, hfresh, hothers, List.map_append]
        · rw [List.filter_append, hfresh, hfound, List.map_append]

end Setting

/-! ## Forms that stay in a segment -/

namespace Form

/-- No reading of the form that begins in a segment ends behind it, where that many brackets are open
at least: an opening brace is never read where the segment may end. -/
def quiet : Form → Nat → Bool
  | .empty, _ | .word _, _ | .name _, _ | .terminator, _ | .notNext _, _ => true
  | .sign s _, _ => !s.toList.contains '\x7b'
  | .phrase p, n => n != 0 || p == .parameters
  | .seq f g, n => f.quiet n && (f.level n).any g.quiet
  | .alt f g, n => f.quiet n && g.quiet n
  | .many f, n | .sameLine f, n | .weighted _ f, n => f.quiet n
  | _, n => n != 0

def settled : Form → Bool
  | .notNext f => f.settled && f.quiet 0 && (f.level 0).isSome
  | .seq f g | .alt f g => f.settled && g.settled
  | .many f | .sameLine f | .weighted _ f => f.settled
  | _ => true

end Form

set_option maxRecDepth 10000 in
theorem Phrase.settled_form (p : Phrase) : p.form.settled = true := by
  cases p with
  | operand a =>
    rcases a with ⟨line, header, ending, lead, guarded⟩
    cases line <;> cases header <;> cases guarded <;> rfl
  | suffix a =>
    rcases a with ⟨line, header, ending, lead, guarded⟩
    cases line <;> cases guarded <;> rfl
  | expression a =>
    rcases a with ⟨line, header, ending, lead, guarded⟩
    cases line <;> rfl
  | type closing beside => cases closing <;> cases beside <;> rfl
  | _ => rfl

/-- A way that closes no bracket which is open at its start ends before the place where all of them
are closed. -/
theorem Path.inner {n m k : Nat} {c d e : Cursor} (h : Path n c m d) (he : Path (n + k + 1) c 0 e) :
    Path (m + k + 1) d 0 e := by
  induction h with
  | refl => exact he
  | @step n c ch l m d hch hopened hrest ih =>
    refine ih ?_
    cases he with
    | step hch' hopened' hrest' =>
      obtain rfl := Option.some.inj (hch.symm.trans hch')
      have hshift := opened_add hopened (k + 1)
      rw [← Nat.add_assoc, hopened', Option.some.injEq] at hshift
      rwa [hshift, ← Nat.add_assoc] at hrest'

namespace Setting

variable {s : Setting} {n m k fuel : Nat} {c d : Cursor} {f : Form}

theorem exists_cursor (hc : c.Counted) (h : (s.cursor c).Reaches d) (hnear : s.near d = true) :
    ∃ e, c.Reaches e ∧ d = s.cursor e := by
  have hadvance := h.advance_eq (counted_cursor hc)
  rw [near, decide_eq_true_eq] at hnear
  have hle : (s.cursor c).left - d.left ≤ c.left := by
    rw [cursor_left]
    omega
  rw [cursor_advance hc hle] at hadvance
  exact ⟨_, Cursor.reaches_advance c _, hadvance.symm⟩

theorem near_of_inside (hc : c.Counted) (hin : s.Inside (n + k + 1) c)
    (h : Path n (s.cursor c) m d) : s.near d = true := by
  obtain ⟨e, he, hleft⟩ := hin
  have hle := (h.inner he).reaches.left_le (h.reaches.counted (counted_cursor hc))
  rw [near, decide_eq_true_eq, ← hleft]
  exact hle

theorem near_of_mem_tokenEnds (hc : c.Counted) (hin : s.Inside (n + k) c)
    (hcomment : commentLength? (s.cursor c).rest = none) (hlevel : f.level n = some m)
    (hquiet : f.quiet n = true) (h : d ∈ f.tokenEnds (s.cursor c)) : s.near d = true := by
  have hadvance {count : Nat} (hcount : count ≤ c.rest.length) :
      s.near ((s.cursor c).advance count) = true := by
    rw [cursor_advance hc (hc ▸ hcount), near_cursor]
  have hword : wordLength (s.cursor c).rest ≤ c.rest.length := by
    rw [cursor_rest, wordLength_append c.rest s.startsBody]
    exact wordLength_le _
  have hinner {m' : Nat} (hn : n ≠ 0) (hpath : Path 0 (s.cursor c) m' d) : s.near d = true := by
    refine near_of_inside hc (k := n + k - 1) (n := 0) ?_ hpath
    have hsame : 0 + (n + k - 1) + 1 = n + k := by omega
    rwa [hsame]
  cases f with
  | word w =>
    rw [Form.tokenEnds] at h
    split at h
    · exact List.mem_singleton.mp h ▸ hadvance hword
    · cases h
  | name reserved =>
    rw [Form.tokenEnds] at h
    split at h
    · cases h
    · exact List.mem_singleton.mp h ▸ hadvance hword
  | sign sign longer =>
    have hbrace : '\x7b' ∉ sign.toList := by simpa [Form.quiet] using hquiet
    rw [Form.tokenEnds] at h
    split at h
    · cases h
    · rw [Option.mem_toList, Cursor.passSign, cursor_rest,
        isPrefixOf_append hbrace c.rest s.startsBody] at h
      split at h
      · next hprefix =>
        cases h
        rw [← String.length_toList]
        exact hadvance (List.isPrefixOf_iff_prefix.mp hprefix).length_le
      · cases h
  | operator _ | number | rune | string =>
    exact hinner (by simpa [Form.quiet] using hquiet)
      (Form.path_of_mem_tokenEnds (counted_cursor hc) hcomment rfl h)
  | _ => cases h

theorem head?_cursor {ch : Char} (hch : ch ≠ '\x7b') :
    (s.cursor c).rest.head? = some ch ↔ c.rest.head? = some ch := by
  rw [cursor_rest]
  cases hrest : c.rest with
  | cons first rest => rfl
  | nil =>
    rcases startsBody_cases s.startsBody with htail | ⟨rest, htail⟩
    · rw [htail, List.append_nil]
    · rw [htail]
      simpa using hch.symm

theorem endsItem_cursor (c : Cursor) : endsItem (s.cursor c) = endsItem c := by
  rw [Bool.eq_iff_iff, endsItem, endsItem, Option.any_eq_true, Option.any_eq_true]
  refine exists_congr fun ch => and_congr_left fun hkind => head?_cursor ?_
  rintro rfl
  cases hkind

theorem terminatorEnds_cursor (hc : c.Counted) (hin : s.Inside n c) :
    Form.terminatorEnds (s.cursor c) = (Form.terminatorEnds c).map s.cursor := by
  have hskip := (Cursor.reaches_skipInLine c).counted hc
  rw [Form.terminatorEnds_eq, Form.terminatorEnds_eq, cursor_skipInLine hc hin, endsItem_cursor]
  split
  · next hends => rw [cursor_next (rest_ne_nil_of_endsItem hends) hskip, List.map_singleton]
  · rfl

theorem exists_inside_of_near (hc : c.Counted) (hin : s.Inside (n + k) c)
    (hlevel : f.level n = some m) (h : d ∈ f.ends fuel (s.cursor c)) (hnear : s.near d = true) :
    ∃ e, c.Reaches e ∧ d = s.cursor e ∧ s.Inside (m + k) e := by
  have hpath := (Form.path_of_mem_ends (counted_cursor hc) hlevel h).shift k
  obtain ⟨e, hreach, rfl⟩ := exists_cursor hc hpath.reaches hnear
  exact ⟨e, hreach, rfl, hin.of_path hc hpath⟩

theorem near_of_mem_ends (hc : c.Counted) (hin : s.Inside (n + k) c) (hlevel : f.level n = some m)
    (hquiet : f.quiet n = true) (h : d ∈ f.ends fuel (s.cursor c)) : s.near d = true := by
  induction fuel generalizing f n m k c d with
  | zero => cases h
  | succ fuel ih =>
    have hsource := counted_cursor (s := s) hc
    unfold Form.ends at h
    split at h
    · exact List.mem_singleton.mp h ▸ near_cursor
    · rw [terminatorEnds_cursor hc hin] at h
      obtain ⟨e, -, rfl⟩ := List.mem_map.mp h
      exact near_cursor
    · next p =>
      rcases Nat.eq_zero_or_pos n with rfl | hn
      · obtain rfl : p = .parameters := by simpa [Form.quiet] using hquiet
        exact ih hc hin (Phrase.level_form .parameters) (by rfl) h
      · have hsame : 0 + (n + k - 1) + 1 = n + k := by omega
        exact near_of_inside hc (hsame ▸ hin) (Form.path_of_mem_ends hsource p.level_form h)
    · next f g =>
      obtain ⟨l, hf, hg⟩ := Option.bind_eq_some_iff.mp hlevel
      obtain ⟨hquietF, hquietG⟩ := Bool.and_eq_true_iff.mp hquiet
      rw [hf] at hquietG
      rcases Cursor.mem_foldl_union h with hd | ⟨e, he, hd⟩
      · cases hd
      · obtain ⟨e', hreach, rfl, hin'⟩ :=
          exists_inside_of_near hc hin hf he (ih hc hin hf hquietF he)
        exact ih (hreach.counted hc) hin' hg hquietG hd
    · next f g =>
      obtain ⟨hquietF, hquietG⟩ := Bool.and_eq_true_iff.mp hquiet
      rw [Form.level] at hlevel
      split at hlevel
      · next hboth =>
        rcases Cursor.mem_union h with hd | hd
        · exact ih hc hin hlevel hquietF hd
        · exact ih hc hin (hboth ▸ hlevel) hquietG hd
      · cases hlevel
    · next f =>
      have hquiet : f.quiet n = true := hquiet
      rw [Form.level] at hlevel
      split at hlevel
      · next hsame =>
        cases hlevel
        have hself : ∀ e ∈ [s.cursor c], ∃ e', e'.Counted ∧ e = s.cursor e' ∧ s.Inside (n + k) e' :=
          fun e he => ⟨c, hc, List.mem_singleton.mp he, hin⟩
        obtain ⟨e, -, rfl, -⟩ := Form.spread_preserves (fun e he e' he' => by
          obtain ⟨e, hcounted, rfl, hinE⟩ := he
          obtain ⟨e'', hreach, rfl, hin''⟩ :=
            exists_inside_of_near hcounted hinE hsame he' (ih hcounted hinE hsame hquiet he')
          exact ⟨e'', hreach.counted hcounted, rfl, hin''⟩) hself hself d h
        exact near_cursor
      · cases hlevel
    · next f =>
      have hquiet : f.quiet n = true := hquiet
      have hlevel : f.level n = some m := hlevel
      dsimp only at h
      split at h
      · cases h
      · rw [cursor_skipInLine hc hin] at h
        exact ih ((Cursor.reaches_skipInLine c).counted hc) (hin.skipInLine hc) hlevel hquiet h
    · split at h
      · exact List.mem_singleton.mp h ▸ near_cursor
      · cases h
    · next f =>
      have hquiet : f.quiet n = true := hquiet
      have hlevel : f.level n = some m := hlevel
      exact ih hc hin hlevel hquiet h
    · have hcomment := commentLength?_skip hsource
      rw [cursor_skip hc hin] at h hcomment
      exact near_of_mem_tokenEnds ((Cursor.reaches_skip c).counted hc) (hin.skip hc) hcomment
        hlevel hquiet h

theorem ends_sameLine (fuel : Nat) (f : Form) (c : Cursor) :
    (Form.sameLine f).ends (fuel + 1) c =
      if c.skipInLine.rest.head? = some '\n' then [] else f.ends fuel c.skipInLine := by
  rw [Form.ends]
  split
  · next hrest => rw [hrest, List.head?_cons, if_pos rfl]
  · next hrest =>
    refine (if_neg fun hline => ?_).symm
    obtain ⟨rest, hrest'⟩ := List.head?_eq_some_iff.mp hline
    exact hrest rest hrest'

theorem Inside.of_mem_ends (hin : s.Inside (n + k) c) (hc : c.Counted) (hlevel : f.level n = some m)
    (hends : (f.ends fuel (s.cursor c)).filter s.near = (f.ends fuel c).map s.cursor)
    (hd : d ∈ f.ends fuel c) : d.Counted ∧ s.Inside (m + k) d := by
  have hmem : s.cursor d ∈ f.ends fuel (s.cursor c) :=
    (List.mem_filter.mp (hends ▸ List.mem_map_of_mem hd)).1
  have hpath := (Form.path_of_mem_ends (counted_cursor hc) hlevel hmem).shift k
  exact ⟨(Form.reaches_of_mem_ends hd).counted hc, hin.of_path hc hpath⟩

/-- The ends of a form in the segment are those that it has in the segment alone. -/
theorem filter_ends (hc : c.Counted) (hin : s.Inside (n + k) c) (hlevel : f.level n = some m)
    (hsettled : f.settled = true) :
    (f.ends fuel (s.cursor c)).filter s.near = (f.ends fuel c).map s.cursor := by
  induction fuel generalizing f n m k c with
  | zero => rfl
  | succ fuel ih =>
    have hsource := counted_cursor (s := s) hc
    cases f with
    | empty => simp [Form.ends]
    | terminator =>
      rw [Form.ends, Form.ends, terminatorEnds_cursor hc hin]
      simp
    | phrase p =>
      have hform : s.Inside (0 + (n + k)) c := by rwa [Nat.zero_add]
      exact ih hc hform p.level_form p.settled_form
    | seq f g =>
      obtain ⟨l, hf, hg⟩ := Option.bind_eq_some_iff.mp hlevel
      obtain ⟨hsettledF, hsettledG⟩ := Bool.and_eq_true_iff.mp hsettled
      have hfirst := ih hc hin hf hsettledF
      rw [Form.ends, Form.ends]
      refine filter_foldl_union (fun d hd => ?_) (fun d hd hfar => ?_) hfirst rfl
      · obtain ⟨hcounted, hinD⟩ := hin.of_mem_ends hc hf hfirst hd
        exact ih hcounted hinD hg hsettledG
      · have hreach := (Form.reaches_of_mem_ends hd).counted hsource
        rw [List.filter_eq_nil_iff]
        intro e he
        rw [not_near_of_reaches hreach hfar (Form.reaches_of_mem_ends he)]
        exact Bool.false_ne_true
    | alt f g =>
      obtain ⟨hsettledF, hsettledG⟩ := Bool.and_eq_true_iff.mp hsettled
      rw [Form.level] at hlevel
      split at hlevel
      · next hboth =>
        rw [Form.ends, Form.ends, filter_union, ih hc hin hlevel hsettledF,
          ih hc hin (hboth ▸ hlevel) hsettledG, map_union]
      · cases hlevel
    | many f =>
      have hsettled : f.settled = true := hsettled
      rw [Form.level] at hlevel
      split at hlevel
      · next hsame =>
        have hkeep (d : Cursor) (hd : d.Counted ∧ s.Inside (n + k) d) (e : Cursor)
            (he : e ∈ f.ends fuel d) : e.Counted ∧ s.Inside (n + k) e :=
          hd.2.of_mem_ends hd.1 hsame (ih hd.1 hd.2 hsame hsettled) he
        rw [Form.ends, Form.ends]
        have hfar (d : Cursor) (hd : d.Counted) (hnear : s.near d = false) (e : Cursor)
            (he : e ∈ f.ends fuel d) : s.near e = false :=
          not_near_of_reaches hd hnear (Form.reaches_of_mem_ends he)
        have hkeep' (d : Cursor) (hd : d.Counted) (e : Cursor) (he : e ∈ f.ends fuel d) :
            e.Counted :=
          (Form.reaches_of_mem_ends he).counted hd
        refine filter_spreads (fun d hd => ih hd.1 hd.2 hsame hsettled) hkeep hfar hkeep'
          (Form.spreads_self (Form.distinct_ends fuel f) _)
          (Form.spreads_self (Form.distinct_ends fuel f) _) ?_ ?_ ?_ ?_
        · simpa using ⟨hc, hin⟩
        · simpa using hsource
        · simp
        · simp
      · cases hlevel
    | sameLine f =>
      have hsettled : f.settled = true := hsettled
      have hlevel : f.level n = some m := hlevel
      have hskip := (Cursor.reaches_skipInLine c).counted hc
      have hrest := ih hskip (hin.skipInLine hc) hlevel hsettled
      rw [ends_sameLine, ends_sameLine, cursor_skipInLine hc hin]
      by_cases hline : c.skipInLine.rest.head? = some '\n'
      · rw [if_pos hline, if_pos ((head?_cursor (by decide)).mpr hline)]
        rfl
      · rw [if_neg hline, if_neg (mt (head?_cursor (by decide)).mp hline), hrest]
    | notNext f =>
      obtain ⟨hinner, hsome⟩ := Bool.and_eq_true_iff.mp hsettled
      obtain ⟨hsettled, hquiet⟩ := Bool.and_eq_true_iff.mp hinner
      obtain ⟨l, hl⟩ := Option.isSome_iff_exists.mp hsome
      have hform : s.Inside (0 + (n + k)) c := by rwa [Nat.zero_add]
      have hall : (f.ends fuel (s.cursor c)).filter s.near = f.ends fuel (s.cursor c) :=
        List.filter_eq_self.mpr fun d hd => near_of_mem_ends hc hform hl hquiet hd
      have hsame := ih hc hform hl hsettled
      rw [hall] at hsame
      rw [Form.ends, Form.ends, hsame, List.isEmpty_map]
      split <;> simp
    | weighted w f =>
      have hsettled : f.settled = true := hsettled
      have hlevel : f.level n = some m := hlevel
      exact ih hc hin hlevel hsettled
    | _ =>
      simp only [Form.ends, cursor_skip hc hin]
      exact filter_tokenEnds ((Cursor.reaches_skip c).counted hc) hlevel

end Setting

end SourceBundle.Go
