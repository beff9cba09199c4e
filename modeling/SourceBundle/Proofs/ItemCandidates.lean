import SourceBundle.Proofs.TopLevel

/-!
# Candidates for an item

What is read at the top level is the first of the candidates there: the readings of the parts of a
function, of a method and of anything else, in this order.
-/

namespace SourceBundle.Go

/-! ## The order of ends -/

def SameFirst (cs ds : List Cursor) : Prop :=
  ∀ wanted : Cursor → Bool, cs.find? wanted = ds.find? wanted

theorem SameFirst.append {cs cs' ds ds' : List Cursor} (h : SameFirst cs cs')
    (h' : SameFirst ds ds') : SameFirst (cs ++ ds) (cs' ++ ds') := by
  intro wanted
  rw [List.find?_append, List.find?_append, h wanted, h' wanted]

theorem SameFirst.flatMap {α : Type} {as : List α} {ends ends' : α → List Cursor}
    (h : ∀ a ∈ as, SameFirst (ends a) (ends' a)) :
    SameFirst (as.flatMap ends) (as.flatMap ends') := by
  intro wanted
  rw [List.find?_flatMap, List.find?_flatMap]
  exact findSome?_congr fun a ha => h a ha wanted

theorem SameFirst.trans {cs ds es : List Cursor} (h : SameFirst cs ds) (h' : SameFirst ds es) :
    SameFirst cs es :=
  fun wanted => (h wanted).trans (h' wanted)

theorem SameFirst.symm {cs ds : List Cursor} (h : SameFirst cs ds) : SameFirst ds cs :=
  fun wanted => (h wanted).symm

theorem SameFirst.of_eq {cs ds : List Cursor} (h : cs = ds) : SameFirst cs ds :=
  fun _ => h ▸ rfl

theorem sameFirst_union {c : Cursor} (hc : c.Counted) {as bs : List Cursor}
    (has : ∀ d ∈ as, c.Reaches d) (hbs : ∀ d ∈ bs, c.Reaches d) :
    SameFirst (Cursor.union as bs) (as ++ bs) := by
  induction bs generalizing as with
  | nil =>
    rw [List.append_nil]
    exact fun _ => rfl
  | cons b bs ih =>
    intro wanted
    have hb := hbs b List.mem_cons_self
    have hbs' : ∀ d ∈ bs, c.Reaches d := fun d hd => hbs d (List.mem_cons_of_mem b hd)
    rw [Cursor.union, List.foldl_cons, ← Cursor.union, Cursor.addEnd]
    split
    · next hlisted =>
      obtain ⟨a, ha, hleft⟩ := List.any_eq_true.mp hlisted
      obtain rfl : a = b := Cursor.Reaches.eq_of_left_eq hc (has a ha) hb (beq_iff_eq.mp hleft)
      rw [ih has hbs' wanted, List.find?_append, List.find?_append, List.find?_cons]
      cases hfirst : as.find? wanted with
      | some x => rfl
      | none =>
        have hunwanted := List.find?_eq_none.mp hfirst a ha
        rw [Bool.not_eq_true] at hunwanted
        rw [hunwanted]
    · have has' : ∀ d ∈ as ++ [b], c.Reaches d := by
        intro d hd
        rcases List.mem_append.mp hd with hd | hd
        · exact has d hd
        · exact List.mem_singleton.mp hd ▸ hb
      rw [ih has' hbs' wanted, List.append_assoc]
      rfl

theorem sameFirst_foldl_union {c : Cursor} (hc : c.Counted) {as found : List Cursor}
    {ends : Cursor → List Cursor} (hfound : ∀ d ∈ found, c.Reaches d)
    (hends : ∀ a ∈ as, ∀ d ∈ ends a, c.Reaches d) :
    SameFirst (as.foldl (fun found a => Cursor.union found (ends a)) found)
      (found ++ as.flatMap ends) := by
  induction as generalizing found with
  | nil =>
    rw [List.flatMap_nil, List.append_nil]
    exact fun _ => rfl
  | cons a as ih =>
    have ha := hends a List.mem_cons_self
    have hunion : ∀ d ∈ Cursor.union found (ends a), c.Reaches d := by
      intro d hd
      rcases Cursor.mem_union hd with hd | hd
      · exact hfound d hd
      · exact ha d hd
    have hrest := ih hunion fun a' ha' => hends a' (List.mem_cons_of_mem a ha')
    refine hrest.trans ?_
    rw [List.flatMap_cons, ← List.append_assoc]
    exact (sameFirst_union hc hfound ha).append fun _ => rfl

section Ends

variable {fuel fuel' : Nat} {c : Cursor} {f g : Form} {fs : List Form}

theorem sameFirst_alt (hc : c.Counted) :
    SameFirst ((Form.alt f g).ends (fuel + 1) c) (f.ends fuel c ++ g.ends fuel c) :=
  sameFirst_union hc (fun _ => Form.reaches_of_mem_ends) fun _ => Form.reaches_of_mem_ends

theorem sameFirst_seq (hc : c.Counted) :
    SameFirst ((Form.seq f g).ends (fuel + 1) c) ((f.ends fuel c).flatMap (g.ends fuel)) :=
  sameFirst_foldl_union hc (fun _ hd => absurd hd List.not_mem_nil) fun _ ha _ hd =>
    (Form.reaches_of_mem_ends ha).trans (Form.reaches_of_mem_ends hd)

theorem map_last_readings_cons :
    ((readings fuel (f :: fs) c).map fun ds => ds.getLastD c) =
      (f.ends fuel c).flatMap fun d => (readings fuel fs d).map fun ds => ds.getLastD d := by
  rw [readings, List.map_flatMap]
  refine List.flatMap_congr fun d _ => ?_
  rw [List.map_map]
  refine List.map_congr_left fun ds _ => ?_
  cases ds <;> rfl

theorem sameFirst_chain (hc : c.Counted) (hfs : ∀ f ∈ fs, f.shallow 200 = true)
    (h : 64 * c.left + 200 + fs.length ≤ fuel) (h' : 64 * c.left + 200 ≤ fuel') :
    SameFirst ((Form.chain fs).ends fuel c)
      ((readings fuel' fs c).map fun ds => ds.getLastD c) := by
  induction fs generalizing c fuel with
  | nil =>
    obtain ⟨fuel, rfl⟩ := Nat.exists_eq_add_of_le' (show 1 ≤ fuel by omega)
    exact fun _ => rfl
  | cons f fs ih =>
    have hf : f.ends fuel c = f.ends fuel' c :=
      Form.ends_fuel hc (hfs f List.mem_cons_self) (by omega) h'
    rw [map_last_readings_cons, ← hf]
    cases fs with
    | nil =>
      have hsingle : ((f.ends fuel c).flatMap fun d =>
          (readings fuel' [] d).map fun ds => ds.getLastD d) = f.ends fuel c := by
        simp [readings]
      rw [hsingle]
      exact fun _ => rfl
    | cons g fs =>
      rw [List.length_cons] at h
      obtain ⟨fuel, rfl⟩ := Nat.exists_eq_add_of_le' (show 1 ≤ fuel by omega)
      have hfirst : f.ends (fuel + 1) c = f.ends fuel c :=
        Form.ends_fuel hc (hfs f List.mem_cons_self) (by omega) (by omega)
      refine (sameFirst_seq hc).trans ?_
      rw [hfirst]
      refine SameFirst.flatMap fun d hd => ?_
      have hreach := Form.reaches_of_mem_ends hd
      have hle := hreach.left_le hc
      exact ih (hreach.counted hc) (fun f' hf' => hfs f' (List.mem_cons_of_mem f hf')) (by omega)
        (by omega)

theorem readings_append_singleton (fs : List Form) (f : Form) (c : Cursor) :
    readings fuel (fs ++ [f]) c =
      (readings fuel fs c).flatMap fun ds =>
        (f.ends fuel (ds.getLastD c)).map fun d => ds ++ [d] := by
  induction fs generalizing c with
  | nil => simp [readings, List.map_eq_flatMap]
  | cons g fs ih =>
    rw [List.cons_append, readings, readings, List.flatMap_assoc]
    refine List.flatMap_congr fun d _ => ?_
    rw [ih d, List.map_flatMap, List.flatMap_map]
    refine List.flatMap_congr fun ds _ => ?_
    have hlast : (d :: ds).getLastD c = ds.getLastD d := by cases ds <;> rfl
    rw [hlast, List.map_map]
    rfl

theorem mem_readings_append_singleton {ds : List Cursor} {d : Cursor}
    (h : ds ++ [d] ∈ readings fuel (fs ++ [f]) c) :
    ds ∈ readings fuel fs c ∧ d ∈ f.ends fuel (ds.getLastD c) := by
  rw [readings_append_singleton] at h
  obtain ⟨es, hes, hmap⟩ := List.mem_flatMap.mp h
  obtain ⟨e, he, heq⟩ := List.mem_map.mp hmap
  obtain ⟨rfl, rfl⟩ := List.append_singleton_inj.mp heq
  exact ⟨hes, he⟩

end Ends

/-! ## Candidates -/

inductive ItemKind where
  | function
  | method
  | other
  deriving DecidableEq

namespace ItemKind

def head : ItemKind → List Form
  | .function => [.word "func", .name [], Form.optional (typeParameters []), .phrase .parameters,
    result .lineEnd []]
  | .method => [.word "func", .phrase .parameters, .name typeWords, .phrase .parameters,
    result .lineEnd []]
  | .other => []

def final : ItemKind → Form
  | .function | .method => Form.optional (.sameLine (.phrase .block))
  | .other => .alt packageClause (.alt importDeclaration topStatement)

def parts (kind : ItemKind) : List Form :=
  kind.head ++ [kind.final]

theorem fit_head (kind : ItemKind) : Fit kind.head 0 0 := by
  cases kind with
  | function => exact Setting.fit_functionHead
  | method => exact Setting.fit_methodHead
  | other => exact .nil

theorem fits_final (kind : ItemKind) : kind.final.Fits 0 0 := by
  cases kind <;> exact ⟨rfl, rfl, rfl⟩

end ItemKind

/-- The readings of an item at a cursor, in the order in which one is taken. -/
def candidates (fuel : Nat) (c : Cursor) : List (ItemKind × List Cursor) :=
  [.function, .method, .other].flatMap fun kind => (readings fuel kind.parts c).map (kind, ·)

section Candidates

variable {fuel fuel' : Nat} {c stop : Cursor}

theorem sameFirst_topDeclaration (hc : c.Counted) (h : 64 * c.left + 211 ≤ fuel)
    (h' : 64 * c.left + 200 ≤ fuel') :
    SameFirst (topDeclaration.ends fuel c)
      (((readings fuel' functionParts c).map fun ds => ds.getLastD c) ++
        (((readings fuel' methodParts c).map fun ds => ds.getLastD c) ++
          (packageClause.ends fuel' c ++ importDeclaration.ends fuel' c))) := by
  obtain ⟨depth, rfl⟩ := Nat.exists_eq_add_of_le' (show 3 ≤ fuel by omega)
  have hfunction : SameFirst ((Form.chain functionParts).ends (depth + 2) c)
      ((readings fuel' functionParts c).map fun ds => ds.getLastD c) :=
    sameFirst_chain hc (by decide) (show 64 * c.left + 200 + 6 ≤ depth + 2 by omega) h'
  have hmethod : SameFirst ((Form.chain methodParts).ends (depth + 1) c)
      ((readings fuel' methodParts c).map fun ds => ds.getLastD c) :=
    sameFirst_chain hc (by decide) (show 64 * c.left + 200 + 6 ≤ depth + 1 by omega) h'
  have hpackage : SameFirst (packageClause.ends depth c) (packageClause.ends fuel' c) :=
    .of_eq (Form.ends_fuel hc rfl (by omega) h')
  have himport : SameFirst (importDeclaration.ends depth c) (importDeclaration.ends fuel' c) :=
    .of_eq (Form.ends_fuel hc rfl (by omega) h')
  exact (sameFirst_alt hc).trans (hfunction.append ((sameFirst_alt hc).trans
    (hmethod.append ((sameFirst_alt hc).trans (hpackage.append himport)))))

theorem lasts_candidates (fuel : Nat) (c : Cursor) :
    ((candidates fuel c).map fun p => p.2.getLastD c) =
      ((readings fuel functionParts c).map fun ds => ds.getLastD c) ++
        (((readings fuel methodParts c).map fun ds => ds.getLastD c) ++
          ItemKind.other.final.ends fuel c) := by
  have hother : ((readings fuel ItemKind.other.parts c).map fun ds => ds.getLastD c) =
      ItemKind.other.final.ends fuel c := by
    rw [ItemKind.parts, ItemKind.head, List.nil_append, map_last_readings_cons]
    simp [readings]
  simp only [candidates, List.flatMap_cons, List.flatMap_nil, List.append_nil, List.map_append,
    List.map_map]
  rw [← hother]
  rfl

theorem sameFirst_topItem (hc : c.Counted) (h : 64 * c.left + 256 ≤ fuel) :
    SameFirst (topItem.ends fuel c) ((candidates fuel c).map fun p => p.2.getLastD c) := by
  have hsame {f : Form} (hf : f.shallow 200 = true) {fuel' : Nat} (h' : 64 * c.left + 200 ≤ fuel') :
      SameFirst (f.ends fuel' c) (f.ends fuel c) :=
    .of_eq (Form.ends_fuel hc hf h' (by omega))
  obtain ⟨depth, rfl⟩ := Nat.exists_eq_add_of_le' (show 2 ≤ fuel by omega)
  have hlater : SameFirst ((Form.alt importDeclaration topStatement).ends (depth + 1) c)
      (importDeclaration.ends (depth + 2) c ++ topStatement.ends (depth + 2) c) :=
    (sameFirst_alt hc).trans ((hsame rfl (by omega)).append (hsame rfl (by omega)))
  have hother : SameFirst (ItemKind.other.final.ends (depth + 2) c)
      (packageClause.ends (depth + 2) c ++
        (importDeclaration.ends (depth + 2) c ++ topStatement.ends (depth + 2) c)) :=
    (sameFirst_alt hc).trans ((hsame rfl (by omega)).append hlater)
  have hdeclaration := sameFirst_topDeclaration hc (show 64 * c.left + 211 ≤ depth + 1 by omega)
    (show 64 * c.left + 200 ≤ depth + 2 by omega)
  have hstatement : SameFirst (topStatement.ends (depth + 1) c) (topStatement.ends (depth + 2) c) :=
    hsame rfl (by omega)
  have htop := (sameFirst_alt hc).trans (hdeclaration.append hstatement)
  rw [lasts_candidates]
  refine htop.trans ?_
  rw [List.append_assoc, List.append_assoc, List.append_assoc]
  exact SameFirst.append (fun _ => rfl) (SameFirst.append (fun _ => rfl) hother.symm)

theorem SameFirst.any_eq {cs ds : List Cursor} (h : SameFirst cs ds) (wanted : Cursor → Bool) :
    cs.any wanted = ds.any wanted := by
  rw [← List.isSome_find?, ← List.isSome_find?, h wanted]

theorem last_mem_topItem {p : ItemKind × List Cursor} (hc : c.Counted)
    (h : 64 * c.left + 256 ≤ fuel) (hp : p ∈ candidates fuel c) :
    p.2.getLastD c ∈ topItem.ends fuel c := by
  have hlast : p.2.getLastD c ∈ (candidates fuel c).map fun p => p.2.getLastD c :=
    List.mem_map_of_mem hp
  have hany := (sameFirst_topItem hc h).any_eq (· == p.2.getLastD c)
  rw [List.any_beq'.trans (List.elem_eq_true_of_mem hlast), List.any_beq'] at hany
  exact List.mem_of_elem_eq_true hany

theorem closedByEnd_of_mem_candidates {kind : ItemKind} {ds : List Cursor} (hc : c.Counted)
    (h : 64 * c.left + 256 ≤ fuel) (hkind : kind ≠ .other) (hp : (kind, ds) ∈ candidates fuel c) :
    closedByEnd fuel c (ds.getLastD c) = true := by
  obtain ⟨kind', -, hmem⟩ := List.mem_flatMap.mp hp
  obtain ⟨es, hes, heq⟩ := List.mem_map.mp hmem
  cases heq
  obtain ⟨depth, rfl⟩ := Nat.exists_eq_add_of_le' (show 1 ≤ fuel by omega)
  have hdeclaration := sameFirst_topDeclaration hc (show 64 * c.left + 211 ≤ depth by omega)
    (show 64 * c.left + 200 ≤ depth + 1 by omega)
  rw [closedByEnd, (sameFirst_alt hc).any_eq, List.any_append, hdeclaration.any_eq,
    List.any_append, List.any_append]
  have hlast (fs : List Form) (hfs : ds ∈ readings (depth + 1) fs c) :
      (((readings (depth + 1) fs c).map fun ds => ds.getLastD c).any
        (·.left == (ds.getLastD c).left)) = true :=
    List.any_eq_true.mpr ⟨_, List.mem_map_of_mem hfs, beq_self_eq_true _⟩
  cases kind with
  | function => rw [hlast functionParts hes, Bool.true_or, Bool.true_or]
  | method => rw [hlast methodParts hes, Bool.true_or, Bool.or_true, Bool.true_or]
  | other => exact absurd rfl hkind

def candidateTo (fuel : Nat) (c stop : Cursor) : Option (ItemKind × List Cursor) :=
  (candidates fuel c).find? fun p => (p.2.getLastD c).left == stop.left

theorem reaches_of_mem_candidates {p : ItemKind × List Cursor} (hp : p ∈ candidates fuel c) :
    c.Reaches (p.2.getLastD c) := by
  obtain ⟨kind, -, hmem⟩ := List.mem_flatMap.mp hp
  obtain ⟨ds, hds, rfl⟩ := List.mem_map.mp hmem
  rcases List.eq_nil_or_concat ds with rfl | ⟨es, e, rfl⟩
  · exact .refl c
  · exact reaches_of_mem_readings hds _ (by simp)

theorem candidateTo_of_find? {p : ItemKind × List Cursor} {wanted : Cursor → Bool} (hc : c.Counted)
    (h : (candidates fuel c).find? (fun p => wanted (p.2.getLastD c)) = some p) :
    candidateTo fuel c (p.2.getLastD c) = some p := by
  obtain ⟨hwanted, earlier, later, hall, hearlier⟩ := List.find?_eq_some_iff_append.mp h
  refine List.find?_eq_some_iff_append.mpr ⟨beq_self_eq_true _, earlier, later, hall, fun q hq => ?_⟩
  rw [Bool.not_eq_true', beq_eq_false_iff_ne]
  intro hleft
  have hmem {q : ItemKind × List Cursor} (hq : q ∈ earlier ++ p :: later) :=
    reaches_of_mem_candidates (hall ▸ hq)
  have hsame : q.2.getLastD c = p.2.getLastD c :=
    Cursor.Reaches.eq_of_left_eq hc (hmem (by simp [hq])) (hmem (by simp)) hleft
  have hunwanted := hearlier q hq
  rw [hsame, hwanted] at hunwanted
  cases hunwanted

/-- What stands at the top level ends where the first candidate does that ends as wanted. -/
theorem exists_candidate {wanted : Cursor → Bool} (hc : c.Counted)
    (hfuel : 64 * c.left + 256 ≤ fuel) (h : (topItem.ends fuel c).find? wanted = some stop) :
    ∃ p, (candidates fuel c).find? (fun p => wanted (p.2.getLastD c)) = some p ∧
      p.2.getLastD c = stop ∧ candidateTo fuel c stop = some p := by
  rw [sameFirst_topItem hc hfuel, List.find?_map] at h
  obtain ⟨p, hp, rfl⟩ := Option.map_eq_some_iff.mp h
  exact ⟨p, hp, rfl, candidateTo_of_find? hc hp⟩

theorem candidateTo_eq (fuel : Nat) (c stop : Cursor) :
    candidateTo fuel c stop =
      ((readingTo fuel functionParts c stop).map fun ds => (.function, ds)).or
        (((readingTo fuel methodParts c stop).map fun ds => (.method, ds)).or
          ((readingTo fuel ItemKind.other.parts c stop).map fun ds => (.other, ds))) := by
  simp only [candidateTo, candidates, List.flatMap_cons, List.flatMap_nil, List.append_nil,
    List.find?_append, List.find?_map, readingTo]
  rfl

theorem readingTo_of_candidateTo {kind : ItemKind} {ds : List Cursor}
    (h : candidateTo fuel c stop = some (kind, ds)) :
    readingTo fuel kind.parts c stop = some ds ∧
      (kind ≠ .function → readingTo fuel functionParts c stop = none) := by
  rw [candidateTo_eq] at h
  rcases Option.or_eq_some_iff.mp h with hfirst | ⟨hnone, hlater⟩
  · obtain ⟨es, hes, heq⟩ := Option.map_eq_some_iff.mp hfirst
    cases heq
    exact ⟨hes, fun hne => absurd rfl hne⟩
  · have hfunction := Option.map_eq_none_iff.mp hnone
    rcases Option.or_eq_some_iff.mp hlater with hsecond | ⟨-, hthird⟩
    · obtain ⟨es, hes, heq⟩ := Option.map_eq_some_iff.mp hsecond
      cases heq
      exact ⟨hes, fun _ => hfunction⟩
    · obtain ⟨es, hes, heq⟩ := Option.map_eq_some_iff.mp hthird
      cases heq
      exact ⟨hes, fun _ => hfunction⟩

end Candidates

end SourceBundle.Go
