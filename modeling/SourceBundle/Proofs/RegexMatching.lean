import Mathlib.Data.List.Basic
import Mathlib.Logic.Relation
import SourceBundle.PatternRegex

/-!
# Deciding by places is complete

`Regex.isMatch` finds a match exactly when some stretch of the text is described by the expression.
Every step of it takes an ordered list of places to the ordered list of all places that the
description leads to.
-/

namespace SourceBundle

structure Place.Ordered (text : List Char) (ps : List Place) : Prop where
  ahead_eq : ∀ p ∈ ps, p.ahead = p.chars.length
  suffix : ∀ p ∈ ps, p.chars <:+ text
  sorted : ps.Pairwise fun p q => q.ahead < p.ahead

/-- A description read as a move through a text, from what is ahead before it to what is ahead
after it. -/
def Moves (text : List Char) (describes : List Char → List Char → List Char → Prop)
    (here there : List Char) : Prop :=
  ∃ before stretch, before ++ here = text ∧ stretch ++ there = here ∧
    describes before stretch there

/-- `advance` finds the places that `move` leads to, and no others. -/
structure Advances (text : List Char) (advance : List Place → List Place)
    (move : List Char → List Char → Prop) : Prop where
  ordered : ∀ {ps}, Place.Ordered text ps → Place.Ordered text (advance ps)
  mem_iff : ∀ {ps}, Place.Ordered text ps → ∀ there : List Char,
    ⟨there.length, there⟩ ∈ advance ps ↔ ∃ p ∈ ps, move p.chars there

namespace Place.Ordered

variable {text : List Char} {p : Place} {ps qs : List Place}

theorem nil : Ordered text [] := ⟨by simp, by simp, List.Pairwise.nil⟩

theorem tail (h : Ordered text (p :: ps)) : Ordered text ps :=
  ⟨fun q hq => h.ahead_eq q (List.mem_cons_of_mem _ hq),
    fun q hq => h.suffix q (List.mem_cons_of_mem _ hq), h.sorted.of_cons⟩

theorem sublist (h : Ordered text ps) (hs : qs.Sublist ps) : Ordered text qs :=
  ⟨fun q hq => h.ahead_eq q (hs.subset hq), fun q hq => h.suffix q (hs.subset hq),
    h.sorted.sublist hs⟩

theorem append (hp : Ordered text ps) (hq : Ordered text qs)
    (h : ∀ p ∈ ps, ∀ q ∈ qs, q.ahead < p.ahead) : Ordered text (ps ++ qs) :=
  ⟨fun r hr => (List.mem_append.mp hr).elim (hp.ahead_eq r) (hq.ahead_eq r),
    fun r hr => (List.mem_append.mp hr).elim (hp.suffix r) (hq.suffix r),
    List.pairwise_append.mpr ⟨hp.sorted, hq.sorted, h⟩⟩

theorem eq_of_mem (h : Ordered text ps) (hp : p ∈ ps) : p = ⟨p.chars.length, p.chars⟩ := by
  cases p
  simpa using h.ahead_eq _ hp

end Place.Ordered

/-! ## The places at the start -/

theorem Place.ordered_allFrom {text : List Char} (cs : List Char) (h : cs <:+ text) :
    Place.Ordered text (Place.allFrom cs.length cs) ∧
      ∀ p ∈ Place.allFrom cs.length cs, p.ahead ≤ cs.length := by
  induction cs with
  | nil => exact ⟨⟨by simp [allFrom], by simp [allFrom], by simp [allFrom]⟩, by simp [allFrom]⟩
  | cons c cs ih =>
    obtain ⟨ho, hle⟩ := ih ((List.suffix_cons c cs).trans h)
    have hlt : ∀ p ∈ allFrom cs.length cs, p.ahead < cs.length + 1 :=
      fun p hp => Nat.lt_succ_of_le (hle p hp)
    refine ⟨⟨?_, ?_, ?_⟩, ?_⟩
    · simpa [allFrom] using ho.ahead_eq
    · simpa [allFrom, h] using ho.suffix
    · simpa [allFrom] using And.intro hlt ho.sorted
    · simpa [allFrom] using fun p hp => Nat.le_of_lt (hlt p hp)

theorem Place.mem_allFrom (cs there : List Char) :
    (⟨there.length, there⟩ : Place) ∈ Place.allFrom cs.length cs ↔ there <:+ cs := by
  induction cs with
  | nil => simp [allFrom]
  | cons c cs ih => grind [allFrom, List.suffix_cons_iff]

/-! ## Steps over one character -/

theorem Place.step?_eq_some {cls : CharClass} {p : Place} {there : Place} :
    Place.step? cls p = some there ↔
      ∃ c, cls.contains c = true ∧ p.chars = c :: there.chars ∧ there.ahead = p.ahead - 1 := by
  obtain ⟨n, cs⟩ := p
  obtain ⟨m, ds⟩ := there
  cases cs with
  | nil => simp [step?]
  | cons c cs =>
    simp only [step?, Option.ite_none_right_eq_some, Option.some.injEq, Place.mk.injEq]
    grind

theorem Place.Ordered.step {text : List Char} {ps : List Place} (cls : CharClass)
    (h : Place.Ordered text ps) : Place.Ordered text (ps.filterMap (Place.step? cls)) := by
  refine ⟨?_, ?_, ?_⟩
  · intro q hq
    obtain ⟨p, hp, hs⟩ := List.mem_filterMap.mp hq
    obtain ⟨c, _, hc, ha⟩ := Place.step?_eq_some.mp hs
    rw [ha, h.ahead_eq p hp, hc]
    simp
  · intro q hq
    obtain ⟨p, hp, hs⟩ := List.mem_filterMap.mp hq
    obtain ⟨c, _, hc, _⟩ := Place.step?_eq_some.mp hs
    exact (List.suffix_cons c q.chars).trans (hc ▸ h.suffix p hp)
  · rw [List.pairwise_filterMap]
    refine (List.Pairwise.and_mem.mp h.sorted).imp ?_
    intro p q ⟨hp, hq, hlt⟩ p' hp' q' hq'
    obtain ⟨_, _, _, hpa⟩ := Place.step?_eq_some.mp hp'
    obtain ⟨_, _, hqc, hqa⟩ := Place.step?_eq_some.mp hq'
    have := h.ahead_eq q hq
    rw [hqc, List.length_cons] at this
    omega

/-! ## Runs -/

theorem Place.mem_runFrom_cons {cls : CharClass} {low n : Nat} {c : Char} {cs : List Char}
    {q : Place} : q ∈ Place.runFrom cls low n (c :: cs) ↔ low ≤ n ∧
      (q = ⟨n, c :: cs⟩ ∨ cls.contains c = true ∧ q ∈ Place.runFrom cls low (n - 1) cs) := by
  by_cases hlow : low ≤ n <;> by_cases hc : cls.contains c = true <;> simp [runFrom, hlow, hc]

theorem Place.mem_runFrom {cls : CharClass} {low : Nat} {cs there : List Char} :
    (⟨there.length, there⟩ : Place) ∈ Place.runFrom cls low cs.length cs ↔
      low ≤ there.length ∧ ∃ run, run ++ there = cs ∧ ∀ c ∈ run, cls.contains c = true := by
  induction cs with
  | nil =>
    by_cases hlow : low = 0
    · simp [runFrom, hlow]
    · simp only [runFrom, List.length_nil, Nat.le_zero, hlow, if_false, List.not_mem_nil, false_iff]
      intro ⟨hle, run, he, _⟩
      simp_all
  | cons c cs ih =>
    rw [mem_runFrom_cons, List.length_cons, Nat.add_sub_cancel, ih]
    constructor
    · intro hs
      rcases hs with ⟨hlow, he | ⟨hc, hlow', run, rfl, hrun⟩⟩
      · obtain ⟨hn, rfl⟩ := Place.mk.inj he
        exact ⟨hn ▸ hlow, [], by simp⟩
      · exact ⟨hlow', c :: run, by simp, by simpa [hc] using hrun⟩
    · intro ⟨hlow, run, he, hrun⟩
      have hlen := congrArg List.length he
      simp only [List.length_append, List.length_cons] at hlen
      refine ⟨by omega, ?_⟩
      cases run with
      | nil => exact Or.inl (by simp_all)
      | cons d run =>
        obtain ⟨rfl, rfl⟩ := List.cons.inj he
        exact Or.inr ⟨hrun d (by simp), hlow, run, rfl, fun c hc => hrun c (by simp [hc])⟩

theorem Place.runFrom_sublist (cls : CharClass) (low n : Nat) (cs : List Char) :
    (Place.runFrom cls low n cs).Sublist (Place.allFrom n cs) := by
  induction cs generalizing n with
  | nil => by_cases hlow : low ≤ n <;> simp [runFrom, allFrom, hlow]
  | cons c cs ih =>
    by_cases hlow : low ≤ n <;> by_cases hc : cls.contains c = true <;>
      simp [runFrom, allFrom, hlow, hc, ih]

theorem Place.Ordered.runFrom {text cs : List Char} (cls : CharClass) (low : Nat)
    (h : cs <:+ text) : Place.Ordered text (Place.runFrom cls low cs.length cs) ∧
      ∀ p ∈ Place.runFrom cls low cs.length cs, low ≤ p.ahead ∧ p.ahead ≤ cs.length := by
  obtain ⟨ho, hle⟩ := Place.ordered_allFrom cs h
  have hs := Place.runFrom_sublist cls low cs.length cs
  refine ⟨ho.sublist hs, fun p hp => ⟨?_, hle p (hs.subset hp)⟩⟩
  have he := (ho.sublist hs).eq_of_mem hp
  rw [he, Place.mem_runFrom] at hp
  rw [he]
  exact hp.1

def CharClass.Runs (cls : CharClass) (here there : List Char) : Prop :=
  ∃ run, run ++ there = here ∧ ∀ c ∈ run, cls.contains c = true

theorem CharClass.Runs.take_over {cls : CharClass} {here middle there : List Char}
    (h : cls.Runs here there) (hm : middle <:+ here) (ht : there <:+ middle) :
    cls.Runs middle there := by
  obtain ⟨run, rfl, hrun⟩ := h
  obtain ⟨rest, rfl⟩ := ht
  obtain ⟨front, he⟩ := hm
  rw [← List.append_assoc, List.append_left_inj] at he
  exact ⟨rest, rfl, fun c hc => hrun c (he ▸ List.mem_append_right _ hc)⟩

theorem Place.mem_runs {text : List Char} {cls : CharClass} {ps : List Place}
    (h : Place.Ordered text ps) (there : List Char) :
    (⟨there.length, there⟩ : Place) ∈ Place.runs cls ps ↔ ∃ p ∈ ps, cls.Runs p.chars there := by
  induction ps with
  | nil => simp [runs]
  | cons p ps ih =>
    have hp := h.ahead_eq p (by simp)
    cases ps with
    | nil => simp [runs, hp, mem_runFrom, CharClass.Runs]
    | cons q ps =>
      have hq := h.ahead_eq q (by simp)
      rw [runs, List.mem_append, hp, mem_runFrom, ih h.tail,
        List.exists_mem_cons_iff (fun p => cls.Runs p.chars there) p]
      constructor
      · intro hs
        rcases hs with ⟨_, hr⟩ | hr
        · exact Or.inl hr
        · exact Or.inr hr
      · intro hs
        rcases hs with hr | hr
        · by_cases hlen : q.ahead + 1 ≤ there.length
          · exact Or.inl ⟨hlen, hr⟩
          · have hqp : q.chars <:+ p.chars := by
              apply List.suffix_of_suffix_length_le (h.suffix q (by simp)) (h.suffix p (by simp))
              have := List.rel_of_pairwise_cons h.sorted (List.mem_cons_self (a := q) (l := ps))
              omega
            have htp : there <:+ p.chars := hr.imp fun run hrun => hrun.1
            have htq : there <:+ q.chars :=
              List.suffix_of_suffix_length_le htp hqp (by omega)
            exact Or.inr ⟨q, by simp, hr.take_over hqp htq⟩
        · exact Or.inr hr

theorem Place.Ordered.runs {text : List Char} (cls : CharClass) {ps : List Place}
    (h : Place.Ordered text ps) : Place.Ordered text (Place.runs cls ps) ∧
      ∀ p ∈ Place.runs cls ps, ∃ q ∈ ps.head?, p.ahead ≤ q.ahead := by
  induction ps with
  | nil => exact ⟨h, by simp [Place.runs]⟩
  | cons p ps ih =>
    have hp := h.ahead_eq p (by simp)
    have hrun := fun low => Ordered.runFrom cls low (h.suffix p (by simp))
    rw [← hp] at hrun
    cases ps with
    | nil =>
      refine ⟨(hrun 0).1, fun r hr => ⟨p, rfl, ?_⟩⟩
      exact ((hrun 0).2 r hr).2
    | cons q ps =>
      obtain ⟨ho, hb⟩ := ih h.tail
      obtain ⟨hfirst, hbound⟩ := hrun (q.ahead + 1)
      have hrest : ∀ r ∈ Place.runs cls (q :: ps), r.ahead ≤ q.ahead := by
        intro r hr
        obtain ⟨_, hq, hrq⟩ := hb r hr
        exact Option.mem_some.mp hq ▸ hrq
      rw [Place.runs]
      refine ⟨hfirst.append ho fun r hr s hs => ?_, fun r hr => ⟨p, rfl, ?_⟩⟩
      · exact Nat.lt_of_le_of_lt (hrest s hs) (hbound r hr).1
      · have hlt := List.rel_of_pairwise_cons h.sorted (List.mem_cons_self (a := q) (l := ps))
        rcases List.mem_append.mp hr with hr | hr
        · exact (hbound r hr).2
        · exact Nat.le_of_lt (Nat.lt_of_le_of_lt (hrest r hr) hlt)

/-! ## Unions -/

theorem Place.ordered_dedup {text : List Char} {ps : List Place}
    (ha : ∀ p ∈ ps, p.ahead = p.chars.length) (hs : ∀ p ∈ ps, p.chars <:+ text)
    (hsort : ps.Pairwise fun p q => q.ahead ≤ p.ahead) :
    Place.Ordered text (Place.dedup ps) ∧ ∀ p, p ∈ Place.dedup ps ↔ p ∈ ps := by
  fun_induction Place.dedup ps with
  | case1 => exact ⟨Ordered.nil, fun _ => Iff.rfl⟩
  | case2 p => exact ⟨⟨ha, hs, List.pairwise_singleton _ p⟩, fun _ => Iff.rfl⟩
  | case3 p q ps heq ih =>
    obtain ⟨ho, hmem⟩ := ih (fun r hr => ha r (by simp_all)) (fun r hr => hs r (by simp_all))
      hsort.of_cons
    have hpq : p.chars = q.chars := by
      have hsuf : p.chars <:+ q.chars ∨ q.chars <:+ p.chars :=
        List.suffix_or_suffix_of_suffix (hs p (by simp)) (hs q (by simp))
      have hlen : p.chars.length = q.chars.length := by
        rw [← ha p (by simp), ← ha q (by simp), beq_iff_eq.mp heq]
      exact hsuf.elim (·.eq_of_length hlen) fun h => (h.eq_of_length hlen.symm).symm
    have he : p = q := by
      cases p
      cases q
      simp_all
    exact ⟨ho, fun r => by simp [hmem, he]⟩
  | case4 p q ps hne ih =>
    obtain ⟨ho, hmem⟩ := ih (fun r hr => ha r (by simp_all)) (fun r hr => hs r (by simp_all))
      hsort.of_cons
    have hle := List.rel_of_pairwise_cons hsort (List.mem_cons_self (a := q) (l := ps))
    have hlt : ∀ r ∈ Place.dedup (q :: ps), r.ahead < p.ahead := by
      intro r hr
      have hrq : r.ahead ≤ q.ahead := by
        rcases List.mem_cons.mp ((hmem r).mp hr) with rfl | hr
        · exact Nat.le_refl _
        · exact List.rel_of_pairwise_cons hsort.of_cons hr
      have : p.ahead ≠ q.ahead := by simpa using hne
      omega
    refine ⟨⟨?_, ?_, List.pairwise_cons.mpr ⟨hlt, ho.sorted⟩⟩, fun r => by simp [hmem]⟩
    · exact List.forall_mem_cons.mpr ⟨ha p (by simp), ho.ahead_eq⟩
    · exact List.forall_mem_cons.mpr ⟨hs p (by simp), ho.suffix⟩

theorem Place.Ordered.union {text : List Char} {ps qs : List Place}
    (hp : Place.Ordered text ps) (hq : Place.Ordered text qs) :
    Place.Ordered text (Place.union ps qs) ∧
      ∀ p, p ∈ Place.union ps qs ↔ p ∈ ps ∨ p ∈ qs := by
  have hsort : (ps.merge qs fun p q => decide (q.ahead ≤ p.ahead)).Pairwise
      fun p q => q.ahead ≤ p.ahead := by
    have hm := @List.pairwise_merge Place (fun p q => decide (q.ahead ≤ p.ahead))
      (by simp; omega) (by simp; omega) ps qs
      (hp.sorted.imp fun h => by simpa using Nat.le_of_lt h)
      (hq.sorted.imp fun h => by simpa using Nat.le_of_lt h)
    simpa using hm
  have hd := Place.ordered_dedup
    (fun r hr => (List.mem_merge.mp hr).elim (hp.ahead_eq r) (hq.ahead_eq r))
    (fun r hr => (List.mem_merge.mp hr).elim (hp.suffix r) (hq.suffix r)) hsort
  unfold Place.union
  simpa only [List.mem_merge] using hd

/-! ## Atoms, branches and pieces -/

namespace Advances

variable {text : List Char} {f g : List Place → List Place} {m n : List Char → List Char → Prop}

theorem comp (hf : Advances text f m) (hg : Advances text g n) :
    Advances text (fun ps => g (f ps)) (Relation.Comp m n) := by
  refine ⟨fun h => hg.ordered (hf.ordered h), fun {ps} h there => ?_⟩
  rw [hg.mem_iff (hf.ordered h)]
  constructor
  · intro ⟨q, hq, hn⟩
    rw [(hf.ordered h).eq_of_mem hq, hf.mem_iff h] at hq
    obtain ⟨p, hp, hm⟩ := hq
    exact ⟨p, hp, q.chars, hm, hn⟩
  · intro ⟨p, hp, middle, hm, hn⟩
    exact ⟨_, (hf.mem_iff h middle).mpr ⟨p, hp, hm⟩, hn⟩

/-- Only places of the text matter. -/
theorem congr (hf : Advances text f m)
    (h : ∀ {here there}, here <:+ text → (m here there ↔ n here there)) : Advances text f n := by
  refine ⟨hf.ordered, fun {ps} ho there => ?_⟩
  rw [hf.mem_iff ho]
  constructor
  · intro ⟨p, hp, hm⟩
    exact ⟨p, hp, (h (ho.suffix p hp)).mp hm⟩
  · intro ⟨p, hp, hn⟩
    exact ⟨p, hp, (h (ho.suffix p hp)).mpr hn⟩

end Advances

theorem moves_comp {text : List Char} {whole head tail : List Char → List Char → List Char → Prop}
    (h : ∀ before w after, whole before w after ↔
      ∃ s t, s ++ t = w ∧ head before s (t ++ after) ∧ tail (before ++ s) t after)
    {here there : List Char} :
    Relation.Comp (Moves text head) (Moves text tail) here there ↔ Moves text whole here there := by
  constructor
  · intro hs
    obtain ⟨middle, ⟨before, s, htext, rfl, hhead⟩, before', t, htext', rfl, htail⟩ := hs
    have hb : before' = before ++ s := by
      simpa [← List.append_assoc] using htext'.trans htext.symm
    exact ⟨before, s ++ t, htext, by simp, (h _ _ _).mpr ⟨s, t, rfl, hhead, hb ▸ htail⟩⟩
  · intro hs
    obtain ⟨before, w, htext, rfl, hw⟩ := hs
    obtain ⟨s, t, rfl, hhead, htail⟩ := (h _ _ _).mp hw
    exact ⟨t ++ there, ⟨before, s, htext, by simp, hhead⟩, before ++ s, t, by simp [← htext], rfl,
      htail⟩

theorem Place.advances_step (text : List Char) (cls : CharClass) :
    Advances text (fun ps => ps.filterMap (Place.step? cls))
      (fun here there => ∃ c, cls.contains c = true ∧ here = c :: there) := by
  refine ⟨fun h => h.step cls, fun {ps} h there => ?_⟩
  rw [List.mem_filterMap]
  constructor
  · intro ⟨p, hp, hs⟩
    obtain ⟨c, hc, he, _⟩ := Place.step?_eq_some.mp hs
    exact ⟨p, hp, c, hc, he⟩
  · intro ⟨p, hp, c, hc, he⟩
    refine ⟨p, hp, Place.step?_eq_some.mpr ⟨c, hc, he, ?_⟩⟩
    simp [h.ahead_eq p hp, he]

theorem Place.advances_runs (text : List Char) (cls : CharClass) :
    Advances text (Place.runs cls) cls.Runs :=
  ⟨fun h => (h.runs cls).1, fun h there => Place.mem_runs h there⟩

theorem Place.advances_filter (text : List Char) (size : Nat) :
    Advances text (fun ps => ps.filter (·.ahead == size))
      (fun here there => here = there ∧ here.length = size) := by
  refine ⟨fun h => h.sublist List.filter_sublist, fun {ps} h there => ?_⟩
  simp only [List.mem_filter, beq_iff_eq]
  constructor
  · intro ⟨hm, hlen⟩
    exact ⟨_, hm, rfl, hlen⟩
  · intro hs
    obtain ⟨p, hp, rfl, hlen⟩ := hs
    exact ⟨h.eq_of_mem hp ▸ hp, hlen⟩

theorem Atom.advances (text : List Char) (a : Atom) :
    Advances text (fun ps => a.advance text.length ps) (Moves text a.Spans) := by
  cases a with
  | one cls =>
    refine (Place.advances_step text cls).congr fun {here there} hs => ?_
    constructor
    · intro hs
      obtain ⟨c, hc, rfl⟩ := hs
      obtain ⟨before, hb⟩ := hs
      exact ⟨before, [c], hb, rfl, .one hc⟩
    · intro hs
      obtain ⟨_, _, _, rfl, h⟩ := hs
      cases h with
      | one hc => exact ⟨_, hc, rfl⟩
  | star cls =>
    refine (Place.advances_runs text cls).congr fun {here there} hs => ?_
    constructor
    · intro ⟨run, he, hrun⟩
      obtain ⟨before, hb⟩ := hs
      exact ⟨before, run, hb, he, .star hrun⟩
    · intro ⟨_, run, _, he, h⟩
      cases h with
      | star hrun => exact ⟨run, he, hrun⟩
  | plus cls =>
    refine ((Place.advances_step text cls).comp (Place.advances_runs text cls)).congr
      fun {here there} hs => ?_
    constructor
    · intro hs
      obtain ⟨middle, ⟨c, hc, rfl⟩, run, rfl, hrun⟩ := hs
      obtain ⟨before, hb⟩ := hs
      refine ⟨before, c :: run, hb, rfl, .plus ?_ (List.cons_ne_nil c run)⟩
      exact List.forall_mem_cons.mpr ⟨hc, hrun⟩
    · intro hs
      obtain ⟨_, run, _, rfl, h⟩ := hs
      cases h with
      | plus hrun hne =>
        obtain ⟨c, run, rfl⟩ := List.exists_cons_of_ne_nil hne
        obtain ⟨hc, hrest⟩ := List.forall_mem_cons.mp hrun
        exact ⟨run ++ there, ⟨c, hc, rfl⟩, run, rfl, hrest⟩
  | textStart =>
    refine (Place.advances_filter text text.length).congr fun {here there} hs => ?_
    constructor
    · intro hs
      obtain ⟨rfl, hlen⟩ := hs
      obtain rfl := hs.eq_of_length hlen
      exact ⟨[], [], rfl, rfl, .textStart⟩
    · intro hs
      obtain ⟨_, _, hb, rfl, h⟩ := hs
      cases h with
      | textStart => exact ⟨rfl, congrArg List.length hb⟩
  | textEnd =>
    refine (Place.advances_filter text 0).congr fun {here there} hs => ?_
    constructor
    · intro hs
      obtain ⟨rfl, hlen⟩ := hs
      obtain rfl := List.eq_nil_of_length_eq_zero hlen
      exact ⟨text, [], List.append_nil text, rfl, .textEnd⟩
    · intro hs
      obtain ⟨_, _, _, rfl, h⟩ := hs
      cases h with
      | textEnd => exact ⟨rfl, rfl⟩

theorem advances_nil (text : List Char) {describes : List Char → List Char → List Char → Prop}
    (h : ∀ before w after, describes before w after ↔ w = []) :
    Advances text (fun ps => ps) (Moves text describes) := by
  refine ⟨fun ho => ho, fun {ps} ho there => ?_⟩
  constructor
  · intro hm
    obtain ⟨before, hb⟩ := ho.suffix _ hm
    exact ⟨_, hm, before, [], hb, rfl, (h _ _ _).mpr rfl⟩
  · intro ⟨p, hp, before, w, _, he, hw⟩
    obtain rfl := (h _ _ _).mp hw
    obtain rfl : there = p.chars := he
    exact ho.eq_of_mem hp ▸ hp

theorem Atom.seqSpans_nil {before w after : List Char} :
    Atom.SeqSpans [] before w after ↔ w = [] := by
  constructor
  · intro h
    cases h
    rfl
  · intro h
    exact h ▸ .nil

theorem Atom.seqSpans_cons {a : Atom} {as : List Atom} {before w after : List Char} :
    Atom.SeqSpans (a :: as) before w after ↔
      ∃ s t, s ++ t = w ∧ a.Spans before s (t ++ after) ∧ Atom.SeqSpans as (before ++ s) t after := by
  constructor
  · intro h
    cases h with
    | cons head tail => exact ⟨_, _, rfl, head, tail⟩
  · intro ⟨s, t, he, head, tail⟩
    exact he ▸ .cons head tail

theorem Atom.advances_seq (text : List Char) (as : List Atom) :
    Advances text (fun ps => as.foldl (Atom.advance text.length) ps)
      (Moves text (Atom.SeqSpans as)) := by
  induction as with
  | nil => exact advances_nil text fun _ _ _ => Atom.seqSpans_nil
  | cons a as ih =>
    exact ((a.advances text).comp ih).congr fun _ => moves_comp fun _ _ _ => Atom.seqSpans_cons

theorem Piece.mem_foldl_union {text : List Char} {ps : List Place} (h : Place.Ordered text ps)
    (branches : List (List Atom)) {found : List Place} (hf : Place.Ordered text found) :
    let step := fun found branch =>
      Place.union found (branch.foldl (Atom.advance text.length) ps)
    Place.Ordered text (branches.foldl step found) ∧
      ∀ q, q ∈ branches.foldl step found ↔
        q ∈ found ∨ ∃ branch ∈ branches, q ∈ branch.foldl (Atom.advance text.length) ps := by
  induction branches generalizing found with
  | nil => simpa using hf
  | cons branch branches ih =>
    obtain ⟨ho, hmem⟩ := hf.union ((Atom.advances_seq text branch).ordered h)
    obtain ⟨ho', hmem'⟩ := ih ho
    refine ⟨ho', fun q => ?_⟩
    rw [List.foldl_cons, hmem', hmem, List.exists_mem_cons_iff, or_assoc]

theorem Piece.advances (text : List Char) (p : Piece) :
    Advances text (fun ps => p.advance text.length ps) (Moves text p.Spans) := by
  cases p with
  | atom a =>
    refine (a.advances text).congr fun _ => ?_
    constructor
    · intro ⟨before, w, hb, he, h⟩
      exact ⟨before, w, hb, he, .atom h⟩
    · intro ⟨before, w, hb, he, hs⟩
      cases hs with
      | atom h => exact ⟨before, w, hb, he, h⟩
  | group branches =>
    have hunion := fun {ps} (h : Place.Ordered text ps) =>
      Piece.mem_foldl_union h branches Place.Ordered.nil
    refine ⟨fun h => (hunion h).1, fun {ps} h there => ?_⟩
    rw [Piece.advance, (hunion h).2]
    simp only [List.not_mem_nil, false_or]
    constructor
    · intro ⟨branch, hbranch, hm⟩
      obtain ⟨p, hp, before, w, hb, he, hs⟩ := ((Atom.advances_seq text branch).mem_iff h _).mp hm
      exact ⟨p, hp, before, w, hb, he, .group hbranch hs⟩
    · intro ⟨p, hp, before, w, hb, he, h'⟩
      cases h' with
      | group hbranch hs =>
        exact ⟨_, hbranch, ((Atom.advances_seq text _).mem_iff h _).mpr ⟨p, hp, before, w, hb, he, hs⟩⟩

theorem Piece.seqSpans_nil {before w after : List Char} :
    Piece.SeqSpans [] before w after ↔ w = [] := by
  constructor
  · intro h
    cases h
    rfl
  · intro h
    exact h ▸ .nil

theorem Piece.seqSpans_cons {p : Piece} {ps : List Piece} {before w after : List Char} :
    Piece.SeqSpans (p :: ps) before w after ↔
      ∃ s t, s ++ t = w ∧ p.Spans before s (t ++ after) ∧
        Piece.SeqSpans ps (before ++ s) t after := by
  constructor
  · intro h
    cases h with
    | cons head tail => exact ⟨_, _, rfl, head, tail⟩
  · intro ⟨s, t, he, head, tail⟩
    exact he ▸ .cons head tail

theorem Piece.advances_seq (text : List Char) (pieces : List Piece) :
    Advances text (fun ps => pieces.foldl (Piece.advance text.length) ps)
      (Moves text (Piece.SeqSpans pieces)) := by
  induction pieces with
  | nil => exact advances_nil text fun _ _ _ => Piece.seqSpans_nil
  | cons p pieces ih =>
    exact ((p.advances text).comp ih).congr fun _ => moves_comp fun _ _ _ => Piece.seqSpans_cons

/-- Matching decides whether the expression describes some stretch of the text. -/
theorem Regex.isMatch_iff_matches (r : Regex) (text : List Char) :
    r.isMatch text = true ↔ r.Matches text := by
  have hall := (Place.ordered_allFrom text (List.suffix_refl text)).1
  have hadv := Piece.advances_seq text r.pieces
  rw [Regex.isMatch, Bool.not_eq_true', List.isEmpty_eq_false_iff_exists_mem]
  constructor
  · intro ⟨q, hq⟩
    rw [(hadv.ordered hall).eq_of_mem hq, hadv.mem_iff hall] at hq
    obtain ⟨p, _, before, w, hb, he, hs⟩ := hq
    exact ⟨before, w, q.chars, by rw [List.append_assoc, he, hb], hs⟩
  · intro ⟨before, middle, after, htext, hs⟩
    refine ⟨_, (hadv.mem_iff hall after).mpr ⟨_, (Place.mem_allFrom text (middle ++ after)).mpr ?_,
      before, middle, ?_, rfl, hs⟩⟩
    · exact ⟨before, by simp [htext]⟩
    · simp [htext]

end SourceBundle
