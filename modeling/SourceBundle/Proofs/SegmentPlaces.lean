import Mathlib.Data.List.Find
import SourceBundle.Proofs.SegmentReadings

/-!
# Places of a segment

A place of a segment, behind as many open brackets as the way to the end of the segment closes, is a
place of the source that the segment stands in. Forms, lists of forms and weights are read there as in
the segment alone, as far as the reading ends in the segment.
-/

namespace SourceBundle.Go

/-! ## Places -/

/-- The form leads from that many open brackets to that many, can be read in a segment and is no
deeper than the fuel allows for. -/
structure Form.Fits (f : Form) (n m : Nat) : Prop where
  level : f.level n = some m
  settled : f.settled = true
  shallow : f.shallow 200 = true

/-- The forms, one after another, lead from that many open brackets to that many. -/
inductive Fit : List Form → Nat → Nat → Prop
  | nil {n} : Fit [] n n
  | cons {f fs n m k} (hf : f.Fits n m) (hfs : Fit fs m k) : Fit (f :: fs) n k

theorem Fit.append {fs gs : List Form} {n m k : Nat} (h : Fit fs n m) (h' : Fit gs m k) :
    Fit (fs ++ gs) n k := by
  induction h with
  | nil => exact h'
  | cons hf _ ih => exact .cons hf (ih h')

/-! ## Lists of forms -/

section Readings

variable {fuel n m : Nat} {c : Cursor} {f : Form} {fs : List Form}

theorem length_of_mem_readings {ds : List Cursor} (h : ds ∈ readings fuel fs c) :
    ds.length = fs.length := by
  induction fs generalizing c ds with
  | nil =>
    rw [readings, List.mem_singleton] at h
    simp [h]
  | cons f fs ih =>
    obtain ⟨e, es, rfl, -, hes⟩ := exists_of_mem_readings_cons h
    rw [List.length_cons, List.length_cons, ih hes]

theorem path_of_mem_readings (hc : c.Counted) (hfs : Fit fs n m) {ds : List Cursor}
    (h : ds ∈ readings fuel fs c) : Path n c m (ds.getLastD c) := by
  induction hfs generalizing c ds with
  | nil =>
    rw [readings, List.mem_singleton] at h
    rw [h]
    exact .refl
  | cons hf hfs ih =>
    obtain ⟨e, es, rfl, he, hes⟩ := exists_of_mem_readings_cons h
    have hfirst := Form.path_of_mem_ends hc hf.level he
    have hlast : (e :: es).getLastD c = es.getLastD e := by cases es <;> rfl
    rw [hlast]
    exact hfirst.trans (ih (hfirst.reaches.counted hc) hes)

theorem reaches_getLastD {ds : List Cursor} (h : ds ∈ readings fuel fs c) :
    ∀ d ∈ ds, d.Reaches (ds.getLastD c) := by
  induction fs generalizing c ds with
  | nil =>
    rw [readings, List.mem_singleton] at h
    simp [h]
  | cons f fs ih =>
    obtain ⟨e, es, rfl, -, hes⟩ := exists_of_mem_readings_cons h
    have hlast : (e :: es).getLastD c = es.getLastD e := by cases es <;> rfl
    rw [hlast]
    intro d hd
    rcases List.mem_cons.mp hd with rfl | hd
    · cases es with
      | nil => exact .refl d
      | cons e es =>
        have hstep := reaches_of_mem_readings hes e List.mem_cons_self
        exact hstep.trans (ih hes e List.mem_cons_self)
    · exact ih hes d hd

end Readings

namespace Setting

/-- The cursor is a place of the segment behind that many open brackets, and there is enough fuel for
reading from it, both in the segment alone and in the source. -/
structure Placed (s : Setting) (fuel fuel' n : Nat) (c : Cursor) : Prop where
  counted : c.Counted
  inside : s.Inside n c
  enough : 64 * c.left + 256 ≤ fuel
  enough' : 64 * (s.cursor c).left + 256 ≤ fuel'

variable {s : Setting} {fuel fuel' n m k : Nat} {c d stop : Cursor} {f : Form} {fs : List Form}

namespace Placed

theorem of_path (hc : s.Placed fuel fuel' n c) (hreach : c.Reaches d)
    (hpath : Path n (s.cursor c) m (s.cursor d)) : s.Placed fuel fuel' m d := by
  have hle := hreach.left_le hc.counted
  have henough := hc.enough
  have henough' := hc.enough'
  rw [cursor_left] at henough'
  refine ⟨hreach.counted hc.counted, hc.inside.of_path hc.counted hpath, by omega, ?_⟩
  rw [cursor_left]
  omega

theorem skip (hc : s.Placed fuel fuel' n c) : s.Placed fuel fuel' n c.skip :=
  hc.of_path (Cursor.reaches_skip c) (cursor_skip hc.counted hc.inside ▸ Path.skipFrom true _ _)

theorem skipInLine (hc : s.Placed fuel fuel' n c) : s.Placed fuel fuel' n c.skipInLine :=
  hc.of_path (Cursor.reaches_skipInLine c)
    (cursor_skipInLine hc.counted hc.inside ▸ Path.skipFrom false _ _)

theorem gap {pastLines : Bool} {comments : List Comment} (hc : s.Placed fuel fuel' n c)
    (hskip : skipFrom pastLines c.left c = (comments, d)) :
    skipFrom pastLines (s.cursor c).left (s.cursor c) =
        (comments.map fun comment => comment.lowered s.above, s.cursor d) ∧
      s.Placed fuel fuel' n d ∧ c.Reaches d := by
  have hsource := cursor_skipFrom pastLines hc.counted hc.inside (Nat.le_refl _)
    (by rw [cursor_left]; omega : c.left ≤ (s.cursor c).left)
  have hreach := Cursor.reaches_skipFrom pastLines c.left c
  have hpath : Path n (s.cursor c) n (skipFrom pastLines (s.cursor c).left (s.cursor c)).2 :=
    .skipFrom pastLines _ _
  rw [hskip] at hsource hreach
  rw [hsource] at hpath
  exact ⟨hsource, hc.of_path hreach hpath, hreach⟩

theorem rest_ne_nil (hc : s.Placed fuel fuel' (n + 1) c) : c.rest ≠ [] := by
  intro hrest
  obtain ⟨e, he, hleft⟩ := hc.inside
  have hend : e.left = (s.cursor c).left := by
    rw [hleft, cursor_left, hc.counted, hrest]
    simp
  exact absurd (he.eq_of_left_eq (counted_cursor hc.counted) hend).2 (Nat.succ_ne_zero n).symm

/-- The ends of a form in the segment are those that it has in the segment alone. -/
theorem filter_ends (hc : s.Placed fuel fuel' (k + n) c) (hf : f.Fits n m) :
    (f.ends fuel' (s.cursor c)).filter s.near = (f.ends fuel c).map s.cursor := by
  have hin : s.Inside (n + k) c := Nat.add_comm k n ▸ hc.inside
  have henough := hc.enough
  have henough' := hc.enough'
  have hfuel : f.ends fuel c = f.ends fuel' c :=
    Form.ends_fuel hc.counted hf.shallow (by omega) (by rw [cursor_left] at henough'; omega)
  rw [hfuel]
  exact Setting.filter_ends hc.counted hin hf.level hf.settled

theorem mem_ends (hc : s.Placed fuel fuel' (k + n) c) (hf : f.Fits n m) (hd : d ∈ f.ends fuel c) :
    s.cursor d ∈ f.ends fuel' (s.cursor c) :=
  (List.mem_filter.mp (hc.filter_ends hf ▸ List.mem_map_of_mem hd)).1

theorem of_mem_ends (hc : s.Placed fuel fuel' (k + n) c) (hf : f.Fits n m)
    (hd : d ∈ f.ends fuel c) : s.Placed fuel fuel' (k + m) d := by
  have hpath := Form.path_of_mem_ends (counted_cursor hc.counted) hf.level (hc.mem_ends hf hd)
  refine hc.of_path (Form.reaches_of_mem_ends hd) ?_
  rw [Nat.add_comm k n, Nat.add_comm k m]
  exact hpath.shift k

theorem ends_of_quiet (hc : s.Placed fuel fuel' (k + n) c) (hf : f.Fits n m)
    (hquiet : f.quiet n = true) : f.ends fuel' (s.cursor c) = (f.ends fuel c).map s.cursor := by
  have hin : s.Inside (n + k) c := Nat.add_comm k n ▸ hc.inside
  rw [← hc.filter_ends hf]
  exact (List.filter_eq_self.mpr fun d hd =>
    near_of_mem_ends hc.counted hin hf.level hquiet hd).symm

theorem ends_inner (hc : s.Placed fuel fuel' (k + 1) c) (hf : f.Fits 0 m) :
    f.ends fuel' (s.cursor c) = (f.ends fuel c).map s.cursor := by
  have hin : s.Inside (0 + k + 1) c := by
    rw [Nat.zero_add]
    exact hc.inside
  have hall : ∀ d ∈ f.ends fuel' (s.cursor c), s.near d = true := fun d hd =>
    near_of_inside hc.counted hin (Form.path_of_mem_ends (counted_cursor hc.counted) hf.level hd)
  have hplace : s.Placed fuel fuel' (k + 1 + 0) c := hc
  have hfilter := hplace.filter_ends hf
  rw [List.filter_eq_self.mpr hall] at hfilter
  exact hfilter

end Placed

/-! ## Readings -/

theorem filter_flatMap_near {α β : Type} {near : α → Bool} {kept : β → Bool} {as : List α}
    {more : α → List β} (hfar : ∀ a ∈ as, near a = false → (more a).filter kept = []) :
    (as.flatMap more).filter kept =
      (as.filter near).flatMap fun a => (more a).filter kept := by
  induction as with
  | nil => rfl
  | cons a as ih =>
    have hrest := ih fun a' ha' => hfar a' (List.mem_cons_of_mem a ha')
    rw [List.flatMap_cons, List.filter_append, hrest]
    cases ha : near a with
    | false =>
      rw [hfar a List.mem_cons_self ha, List.filter_cons_of_neg (by simp [ha]), List.nil_append]
    | true => rw [List.filter_cons_of_pos ha, List.flatMap_cons]

theorem Placed.filter_readings (hc : s.Placed fuel fuel' (k + n) c) (hfs : Fit fs n m) :
    ((readings fuel' fs (s.cursor c)).filter fun ds => ds.all s.near) =
      (readings fuel fs c).map fun ds => ds.map s.cursor := by
  induction hfs generalizing c with
  | nil => rfl
  | @cons f fs n m l hf hfs ih =>
    rw [readings, readings]
    have hfar : ∀ d ∈ f.ends fuel' (s.cursor c), s.near d = false →
        (((readings fuel' fs d).map (d :: ·)).filter fun ds => ds.all s.near) = [] := by
      intro d _ hfar
      rw [List.filter_eq_nil_iff]
      intro ds hds
      obtain ⟨es, -, rfl⟩ := List.mem_map.mp hds
      simp [hfar]
    rw [filter_flatMap_near hfar, hc.filter_ends hf, List.flatMap_map, List.map_flatMap]
    refine List.flatMap_congr fun d hd => ?_
    have hrest := ih (hc.of_mem_ends hf hd)
    rw [List.filter_map, List.map_map]
    have hkept : ((fun ds => ds.all s.near) ∘ fun ds => s.cursor d :: ds) =
        fun ds => ds.all s.near := by
      funext ds
      simp
    rw [hkept, hrest, List.map_map]
    rfl

theorem Placed.of_mem_readings (hc : s.Placed fuel fuel' (k + n) c) (hfs : Fit fs n m)
    {ds : List Cursor} (h : ds ∈ readings fuel fs c) :
    ∀ d ∈ ds, ∃ l, s.Placed fuel fuel' l d := by
  induction hfs generalizing c ds with
  | nil =>
    rw [readings, List.mem_singleton] at h
    simp [h]
  | cons hf hfs ih =>
    obtain ⟨e, es, rfl, he, hes⟩ := exists_of_mem_readings_cons h
    have hplace := hc.of_mem_ends hf he
    intro d hd
    rcases List.mem_cons.mp hd with rfl | hd
    · exact ⟨_, hplace⟩
    · exact ih hplace hes d hd

theorem near_of_near_last (hc : c.Counted) {ds : List Cursor} (h : ds ∈ readings fuel fs c)
    (hlast : s.near (ds.getLastD c) = true) : (ds.all s.near) = true := by
  rw [List.all_eq_true]
  intro d hd
  have hle := (reaches_getLastD h d hd).left_le ((reaches_of_mem_readings h d hd).counted hc)
  rw [near, decide_eq_true_eq] at hlast ⊢
  omega

theorem Placed.readings_inner (hc : s.Placed fuel fuel' (k + 1) c) (hfs : Fit fs 0 m) :
    readings fuel' fs (s.cursor c) = (readings fuel fs c).map fun ds => ds.map s.cursor := by
  have hplace : s.Placed fuel fuel' (k + 1 + 0) c := hc
  have hin : s.Inside (0 + k + 1) c := by
    rw [Nat.zero_add]
    exact hc.inside
  have hsource := counted_cursor (s := s) hc.counted
  rw [← hplace.filter_readings hfs]
  refine (List.filter_eq_self.mpr fun ds hds => near_of_near_last hsource hds ?_).symm
  exact near_of_inside hc.counted hin (path_of_mem_readings hsource hfs hds)

theorem Placed.readingTo_cursor (hc : s.Placed fuel fuel' (k + n) c) (hfs : Fit fs n m) (stop : Cursor) :
    readingTo fuel' fs (s.cursor c) (s.cursor stop) =
      (readingTo fuel fs c stop).map fun ds => ds.map s.cursor := by
  have hnear : ∀ ds ∈ readings fuel' fs (s.cursor c),
      (ds.getLastD (s.cursor c)).left = (s.cursor stop).left → (ds.all s.near) = true := by
    intro ds hds hlast
    refine near_of_near_last (counted_cursor hc.counted) hds ?_
    rw [near_congr hlast, near_cursor]
  have hsource : readingTo fuel' fs (s.cursor c) (s.cursor stop) =
      ((readings fuel' fs (s.cursor c)).filter fun ds => ds.all s.near).find?
        fun ds => (ds.getLastD (s.cursor c)).left == (s.cursor stop).left := by
    rw [readingTo, List.find?_filter]
    refine List.find?_congr fun ds hds => ?_
    cases hlast : (ds.getLastD (s.cursor c)).left == (s.cursor stop).left with
    | false => simp
    | true => simp [hnear ds hds (beq_iff_eq.mp hlast)]
  rw [hsource, hc.filter_readings hfs, List.find?_map, readingTo]
  congr 1
  refine List.find?_congr fun ds _ => ?_
  have hlast : (ds.map s.cursor).getLastD (s.cursor c) = s.cursor (ds.getLastD c) := by
    rw [List.getLastD_map]
  rw [Function.comp_apply, hlast]
  simp [beq_eq_decide]

/-! ## Weights -/

theorem heavier_none (best : Option Int) : Form.heavier best none = best := by
  cases best <;> rfl

theorem exists_of_isSome_foldl {weight : Cursor → Option Int} {ds : List Cursor}
    {best : Option Int}
    (h : (ds.foldl (fun best d => Form.heavier best (weight d)) best).isSome = true) :
    best.isSome = true ∨ ∃ d ∈ ds, (weight d).isSome = true := by
  induction ds generalizing best with
  | nil => exact .inl h
  | cons d ds ih =>
    rcases ih h with hbest | ⟨e, he, hweight⟩
    · cases hd : weight d with
      | some w => exact .inr ⟨d, List.mem_cons_self, by simp [hd]⟩
      | none =>
        have hbest : (Form.heavier best (weight d)).isSome = true := hbest
        rw [hd, heavier_none] at hbest
        exact .inl hbest
    · exact .inr ⟨e, List.mem_cons_of_mem d he, hweight⟩

theorem isSome_of_isSome_sum {first second : Option Int}
    (h : (do return (← first) + (← second) : Option Int).isSome = true) : second.isSome = true := by
  cases first with
  | none => cases h
  | some a =>
    cases second with
    | none => cases h
    | some b => rfl

theorem left_le_of_isSome_weight? (hc : c.Counted) (h : (f.weight? fuel c stop).isSome = true) :
    stop.left ≤ c.left := by
  induction fuel generalizing f c stop with
  | zero => cases h
  | succ fuel ih =>
    have hany {g : Form} (h : ((if (g.ends fuel c).any (·.left == stop.left) then some 0
        else none : Option Int)).isSome = true) : stop.left ≤ c.left := by
      split at h
      · next hends =>
        obtain ⟨d, hd, hleft⟩ := List.any_eq_true.mp hends
        exact beq_iff_eq.mp hleft ▸ (Form.reaches_of_mem_ends hd).left_le hc
      · cases h
    cases f with
    | phrase p => exact ih hc h
    | weighted w f =>
      rw [Form.weight?, Option.isSome_map] at h
      exact ih hc h
    | alt f g =>
      rw [Form.weight?] at h
      cases hf : f.weight? fuel c stop with
      | some w => exact ih hc (by rw [hf]; rfl)
      | none =>
        rw [hf] at h
        exact ih hc h
    | seq f g =>
      rw [Form.weight?] at h
      rcases exists_of_isSome_foldl h with h | ⟨d, hd, h⟩
      · cases h
      · have hreach := Form.reaches_of_mem_ends hd
        have hlast := ih (hreach.counted hc) (isSome_of_isSome_sum h)
        exact Nat.le_trans hlast (hreach.left_le hc)
    | many f =>
      rw [Form.weight?] at h
      rcases exists_of_isSome_foldl h with h | ⟨d, hd, h⟩
      · split at h
        · next hleft => exact Nat.le_of_eq (beq_iff_eq.mp hleft).symm
        · cases h
      · have hreach := Form.reaches_of_mem_ends hd
        split at h
        · have hlast := ih (hreach.counted hc) (isSome_of_isSome_sum h)
          exact Nat.le_trans hlast (hreach.left_le hc)
        · cases h
    | sameLine f =>
      have hskip := Cursor.reaches_skipInLine c
      rw [Form.weight?] at h
      split at h
      · cases h
      · exact Nat.le_trans (ih (hskip.counted hc) h) (hskip.left_le hc)
    | _ => exact hany h

theorem foldl_near {β : Type} {step step' : β → Cursor → β} {ds ds' : List Cursor} {b : β}
    (hds : ds'.filter s.near = ds.map s.cursor)
    (hfar : ∀ d ∈ ds', s.near d = false → ∀ b, step' b d = b)
    (hnear : ∀ d ∈ ds, ∀ b, step' b (s.cursor d) = step b d) :
    ds'.foldl step' b = ds.foldl step b := by
  have hfilter : ds'.foldl step' b = (ds'.filter s.near).foldl step' b := by
    rw [List.foldl_filter]
    refine Form.foldl_congr fun d hd b => ?_
    cases hd' : s.near d with
    | true => rfl
    | false => exact hfar d hd hd' b
  rw [hfilter, hds, List.foldl_map]
  exact Form.foldl_congr hnear

theorem cursor_weight? (hc : c.Counted) (hin : s.Inside (n + k) c) (hlevel : f.level n = some m)
    (hsettled : f.settled = true) :
    f.weight? fuel (s.cursor c) (s.cursor stop) = f.weight? fuel c stop := by
  induction fuel generalizing f n m k c stop with
  | zero => rfl
  | succ fuel ih =>
    have hsource := counted_cursor (s := s) hc
    have hany {g : Form} (hlevel : g.level n = some m) (hsettled : g.settled = true) :
        (if (g.ends fuel (s.cursor c)).any (·.left == (s.cursor stop).left) then some 0
          else none : Option Int) =
        if (g.ends fuel c).any (·.left == stop.left) then some 0 else none := by
      rw [any_left_cursor (Setting.filter_ends hc hin hlevel hsettled)]
    have hfar {g : Form} {d : Cursor} (hd : (s.cursor c).Reaches d) (hnear : s.near d = false) :
        g.weight? fuel d (s.cursor stop) = none := by
      rw [← Option.not_isSome_iff_eq_none]
      intro hsome
      have hle := left_le_of_isSome_weight? (hd.counted hsource) hsome
      rw [near, decide_eq_false_iff_not] at hnear
      rw [cursor_left] at hle
      omega
    cases f with
    | phrase p =>
      have hform : s.Inside (0 + (n + k)) c := by rwa [Nat.zero_add]
      exact ih hc hform p.level_form p.settled_form
    | weighted w f =>
      have hsettled : f.settled = true := hsettled
      have hlevel : f.level n = some m := hlevel
      rw [Form.weight?, Form.weight?, ih hc hin hlevel hsettled]
    | alt f g =>
      obtain ⟨hsettledF, hsettledG⟩ := Bool.and_eq_true_iff.mp hsettled
      rw [Form.level] at hlevel
      split at hlevel
      · next hboth =>
        rw [Form.weight?, Form.weight?, ih hc hin hlevel hsettledF,
          ih hc hin (hboth ▸ hlevel) hsettledG]
      · cases hlevel
    | seq f g =>
      obtain ⟨l, hf, hg⟩ := Option.bind_eq_some_iff.mp hlevel
      obtain ⟨hsettledF, hsettledG⟩ := Bool.and_eq_true_iff.mp hsettled
      have hfirst : (f.ends fuel (s.cursor c)).filter s.near = (f.ends fuel c).map s.cursor :=
        Setting.filter_ends hc hin hf hsettledF
      rw [Form.weight?, Form.weight?]
      refine foldl_near hfirst (fun d hd hnear best => ?_)
        fun d hd best => ?_
      · rw [hfar (Form.reaches_of_mem_ends hd) hnear]
        cases f.weight? fuel (s.cursor c) d <;> exact heavier_none best
      · obtain ⟨hcounted, hinD⟩ := hin.of_mem_ends hc hf hfirst hd
        rw [ih hc hin hf hsettledF, ih hcounted hinD hg hsettledG]
    | many f =>
      have hagain : (Form.many f).settled = true := hsettled
      have hsettled : f.settled = true := hsettled
      have hsame : f.level n = some n := by
        rw [Form.level] at hlevel
        split at hlevel
        · next hsame => exact hsame
        · cases hlevel
      obtain rfl : n = m := by
        rw [Form.level, if_pos hsame] at hlevel
        exact Option.some.inj hlevel
      have hstop : ((s.cursor c).left == (s.cursor stop).left) = (c.left == stop.left) := by
        simp [beq_eq_decide]
      have hfirst : (f.ends fuel (s.cursor c)).filter s.near = (f.ends fuel c).map s.cursor :=
        Setting.filter_ends hc hin hsame hsettled
      rw [Form.weight?, Form.weight?, hstop]
      refine foldl_near hfirst (fun d hd hnear best => ?_)
        fun d hd best => ?_
      · rw [hfar (Form.reaches_of_mem_ends hd) hnear]
        split
        · cases f.weight? fuel (s.cursor c) d <;> exact heavier_none best
        · exact heavier_none best
      · obtain ⟨hcounted, hinD⟩ := hin.of_mem_ends hc hsame hfirst hd
        simp only [cursor_left, Nat.add_lt_add_iff_right]
        rw [ih hc hin hsame hsettled, ih hcounted hinD hlevel hagain]
    | sameLine f =>
      have hsettled : f.settled = true := hsettled
      have hlevel : f.level n = some m := hlevel
      have hskip := (Cursor.reaches_skipInLine c).counted hc
      have hline : ((s.cursor c.skipInLine).rest.head? == some '\n') =
          (c.skipInLine.rest.head? == some '\n') := by
        rw [Bool.eq_iff_iff, beq_iff_eq, beq_iff_eq]
        exact head?_cursor (by decide)
      rw [Form.weight?, Form.weight?, cursor_skipInLine hc hin, hline,
        ih hskip (hin.skipInLine hc) hlevel hsettled]
    | _ => exact hany hlevel hsettled

theorem Placed.weight?_cursor (hc : s.Placed fuel fuel' (k + n) c) (hf : f.Fits n m) (stop : Cursor) :
    f.weight? fuel' (s.cursor c) (s.cursor stop) = f.weight? fuel c stop := by
  have hin : s.Inside (n + k) c := Nat.add_comm k n ▸ hc.inside
  have henough := hc.enough
  have henough' := hc.enough'
  have hfuel : f.weight? fuel c stop = f.weight? fuel' c stop :=
    Form.weight?_fuel hc.counted hf.shallow (by omega) (by rw [cursor_left] at henough'; omega)
  rw [hfuel]
  exact cursor_weight? hc.counted hin hf.level hf.settled

end Setting

end SourceBundle.Go
