import Mathlib.Data.List.Induction
import Mathlib.Data.List.TakeWhile
import SourceBundle.Proofs.PathPieces

/-!
# The parents of paths

A path that is put behind another one adds its pieces, and the parent of a path drops the last one
and whatever names no step before it. So the ancestors of a path below a base are the paths of the
shorter chains of names.
-/

namespace SourceBundle.PathText

variable {path base name : String} {front names : List String}

theorem pieces_append_slash (path other : String) :
    pieces (path ++ "/" ++ other) = pieces path ++ pieces other := by
  have hjoined : path ++ "/" ++ other = ofPieces (pieces path ++ pieces other) := by
    rw [ofPieces_append (pieces_ne_nil path) (pieces_ne_nil other), ofPieces_pieces, ofPieces_pieces]
  rw [hjoined, pieces_ofPieces]
  · simp [pieces_ne_nil]
  · intro piece hpiece
    rcases List.mem_append.mp hpiece with h | h
    · exact no_slash_of_mem_pieces h
    · exact no_slash_of_mem_pieces h

theorem isAbsolute_iff :
    isAbsolute path = true ↔ (pieces path).head? = some "" ∧ pieces path ≠ [""] := by
  cases hpath : path.toList with
  | nil => simp [isAbsolute, pieces, splitText, hpath, splitAtEach]
  | cons c cs =>
    rw [isAbsolute, pieces, splitText, hpath, splitAtEach_eq, List.splitOn_cons_eq_if_modifyHead]
    obtain ⟨first, rest, hrest⟩ := List.exists_cons_of_ne_nil (List.splitOn_ne_nil '/' cs)
    by_cases hc : c = '/'
    · simp [hc, hrest]
    · simp [hc, hrest]

theorem isAbsolute_eq_false (h : (pieces path).head? ≠ some "") : isAbsolute path = false :=
  Bool.eq_false_iff.mpr fun habsolute => h (isAbsolute_iff.mp habsolute).1

theorem isAbsolute_join (hbase : base ≠ "") (hpath : isAbsolute path = false) :
    isAbsolute (join base path) = isAbsolute base := by
  obtain ⟨c, cs, hcs⟩ := List.exists_cons_of_ne_nil (mt String.toList_eq_nil_iff.mp hbase)
  rw [join, if_neg (by simp [hpath])]
  split <;> simp [isAbsolute, hcs]

theorem mem_bytes_iff {byte : UInt8} (h : byte ≠ 0x2F) :
    byte ∈ bytes path ↔ ∃ piece ∈ pieces path, byte ∈ DiskName.bytes piece := by
  have hjoined : ∀ parts : List (List UInt8),
      byte ∈ [0x2F].intercalate parts ↔ ∃ part ∈ parts, byte ∈ part := by
    intro parts
    induction parts with
    | nil => simp [List.intercalate]
    | cons part parts ih =>
      cases parts with
      | nil => simp [List.intercalate]
      | cons next parts =>
        rw [List.intercalate_cons_cons, List.mem_append, List.mem_append, ih]
        simp [h]
  simp [bytes, hjoined]

theorem nul_not_mem_bytes_iff :
    0 ∉ bytes path ↔ ∀ piece ∈ pieces path, 0 ∉ DiskName.bytes piece := by
  rw [mem_bytes_iff (by decide)]
  simp

theorem isAbsolute_ofPieces (hne : names ≠ []) (hslash : ∀ name ∈ names, '/' ∉ name.toList)
    (hsteps : ∀ name ∈ names, isTrivial name = false) : isAbsolute (ofPieces names) = false := by
  apply isAbsolute_eq_false
  rw [pieces_ofPieces hne hslash]
  intro hhead
  have hempty := hsteps "" (List.mem_of_mem_head? hhead)
  simp [isTrivial] at hempty

theorem exists_pieces_join (base : String) :
    ∃ lead, (base = "" ∧ lead = [] ∨ pieces base = lead ∨ pieces base = lead ++ [""]) ∧
      ∀ path, isAbsolute path = false → pieces (join base path) = lead ++ pieces path := by
  by_cases hempty : base = ""
  · exact ⟨[], .inl ⟨hempty, rfl⟩, fun path hpath => by simp [join, hpath, hempty]⟩
  by_cases hslash : base.toList.getLast? = some '/'
  · obtain ⟨cs, hcs⟩ := List.getLast?_eq_some_iff.mp hslash
    have hbase : base = String.ofList cs ++ "/" := by
      rw [← String.toList_inj, hcs]
      simp
    have hpieces : pieces base = pieces (String.ofList cs) ++ [""] := by
      have hempty : pieces "" = [""] := rfl
      have happend := pieces_append_slash (String.ofList cs) ""
      rwa [String.append_empty, ← hbase, hempty] at happend
    refine ⟨pieces (String.ofList cs), .inr (.inr hpieces), fun path hpath => ?_⟩
    rw [join, if_neg (by simp [hpath]), if_pos (by simp [hslash]), hbase, pieces_append_slash]
  · refine ⟨pieces base, .inr (.inl rfl), fun path hpath => ?_⟩
    rw [join, if_neg (by simp [hpath]), if_neg (by simp [hempty, hslash]), pieces_append_slash]

/-! ## Dropping the last step -/

theorem trimPieces_concat (front : List String) (hname : isTrivial name = false) :
    trimPieces (front ++ [name]) = front ++ [name] := by
  cases front with
  | nil => rfl
  | cons first front => simp [trimPieces, hname]

theorem exists_trimmed_tail (h : front ≠ []) :
    ∃ tail, (∀ piece ∈ tail, isTrivial piece = true) ∧ front = trimPieces front ++ tail := by
  obtain ⟨first, rest, rfl⟩ := List.exists_cons_of_ne_nil h
  refine ⟨(rest.reverse.takeWhile isTrivial).reverse, ?_, ?_⟩
  · intro piece hpiece
    exact List.mem_takeWhile_imp (List.mem_reverse.mp hpiece)
  · rw [trimPieces, List.cons_append, ← List.reverse_append, List.takeWhile_append_dropWhile,
      List.reverse_reverse]

theorem parent?_of_pieces (h : pieces path = front ++ [name]) (hname : isTrivial name = false)
    (hfront : front ≠ []) :
    parent? path =
      some (if trimPieces front = [""] then "/" else ofPieces (trimPieces front)) := by
  have hsteps : stepPieces path = front ++ [name] := by
    rw [stepPieces, h, trimPieces_concat front hname]
    obtain ⟨first, rest, rfl⟩ := List.exists_cons_of_ne_nil hfront
    cases rest <;> rfl
  rw [parent?, hsteps]
  split
  next heq => simp at heq
  next heq => exact absurd (List.append_eq_singleton_iff.mp heq) (by simp [hfront])
  next =>
    rw [List.dropLast_concat]
    split
    next heq => simp [heq]
    next hne => rw [if_neg hne]

theorem eq_nil_of_trimPieces {lead : List String} (h : trimPieces front = lead ++ [""]) :
    lead = [] := by
  cases front with
  | nil => simp [trimPieces] at h
  | cons first rest =>
    rw [trimPieces] at h
    cases hrest : rest.reverse.dropWhile isTrivial with
    | nil =>
      rw [hrest] at h
      cases lead with
      | nil => rfl
      | cons piece lead => simp at h
    | cons last more =>
      have hlast : isTrivial last = false := by
        simpa [hrest] using List.head?_dropWhile_not isTrivial rest.reverse
      rw [hrest, List.reverse_cons, ← List.cons_append] at h
      obtain ⟨_, hempty⟩ := List.append_inj' h rfl
      rw [(List.cons.inj hempty).1] at hlast
      simp [isTrivial] at hlast

theorem exists_parent (h : pieces path = front ++ [name]) (hname : isTrivial name = false) :
    ∃ parent lead tail, parent? path = some parent ∧ front = lead ++ tail ∧
      (∀ piece ∈ tail, isTrivial piece = true) ∧
      ∀ below, isAbsolute below = false → pieces (join parent below) = lead ++ pieces below ∧
        isAbsolute (join parent below) = isAbsolute path := by
  by_cases hfront : front = []
  · subst hfront
    have hne : name ≠ "" := by
      rintro rfl
      simp [isTrivial] at hname
    have hrelative : isAbsolute path = false := isAbsolute_eq_false (by simp [h, hne])
    have hparent : parent? path = some "" := by
      have hsteps : stepPieces path = [name] := by simp [stepPieces, h, trimPieces, hne]
      simp [parent?, hsteps, hne]
    refine ⟨"", [], [], hparent, rfl, by simp, fun below hbelow => ?_⟩
    simp [join, hbelow, hrelative]
  obtain ⟨tail, htail, hsplit⟩ := exists_trimmed_tail hfront
  have hhead : (pieces path).head? = (trimPieces front).head? := by
    obtain ⟨first, rest, rfl⟩ := List.exists_cons_of_ne_nil hfront
    rw [h]
    rfl
  have hmany : pieces path ≠ [""] := by
    obtain ⟨first, rest, rfl⟩ := List.exists_cons_of_ne_nil hfront
    simp [h]
  refine ⟨_, trimPieces front, tail, parent?_of_pieces h hname hfront, hsplit, htail,
    fun below hbelow => ?_⟩
  by_cases hroot : trimPieces front = [""]
  · have habsolute : isAbsolute path = true :=
      isAbsolute_iff.mpr ⟨by rw [hhead, hroot]; rfl, hmany⟩
    have hjoin : join "/" below = "" ++ "/" ++ below := by simp [join, hbelow]
    rw [if_pos hroot, isAbsolute_join (by decide) hbelow, habsolute, hjoin, pieces_append_slash, hroot]
    exact ⟨rfl, rfl⟩
  · have hne : trimPieces front ≠ [] := by
      obtain ⟨first, rest, rfl⟩ := List.exists_cons_of_ne_nil hfront
      simp [trimPieces]
    have hslash : ∀ piece ∈ trimPieces front, '/' ∉ piece.toList := by
      intro piece hpiece
      have hmem : piece ∈ pieces path := by
        rw [h, hsplit]
        simp [hpiece]
      exact no_slash_of_mem_pieces hmem
    have hpieces := pieces_ofPieces hne hslash
    have hparent : ofPieces (trimPieces front) ≠ "" := by
      intro hempty
      rw [hempty] at hpieces
      exact hroot hpieces.symm
    have habsolute : isAbsolute (ofPieces (trimPieces front)) = isAbsolute path := by
      rw [Bool.eq_iff_iff, isAbsolute_iff, isAbsolute_iff, hpieces, hhead]
      simp [hroot, hmany]
    rw [if_neg hroot, isAbsolute_join hparent hbelow, habsolute]
    obtain ⟨lead, hcases, hlead⟩ := exists_pieces_join (ofPieces (trimPieces front))
    rw [hlead below hbelow]
    rcases hcases with ⟨hempty, _⟩ | hsame | hlast
    · exact absurd hempty hparent
    · exact ⟨by rw [← hsame, hpieces], rfl⟩
    · rw [hpieces] at hlast
      have hnil := eq_nil_of_trimPieces hlast
      subst hnil
      exact absurd hlast hroot

/-! ## Ancestors -/

theorem ancestor_of_pieces {above : String} {back : List String}
    (h : pieces path = front ++ above :: back) (habove : isTrivial above = false)
    (hback : ∀ piece ∈ back, isTrivial piece = false) :
    ancestor back.length path = ofPieces (front ++ [above]) := by
  induction back using List.reverseRecOn generalizing path with
  | nil =>
    rw [List.length_nil, ancestor, ← h, ofPieces_pieces]
  | append_singleton back name ih =>
    have hname : isTrivial name = false := hback name (by simp)
    have hpieces : pieces path = (front ++ above :: back) ++ [name] := by simpa using h
    have htrim : trimPieces (front ++ above :: back) = front ++ above :: back := by
      rcases List.eq_nil_or_concat' back with rfl | ⟨back, last, rfl⟩
      · exact trimPieces_concat front habove
      · have hlast : isTrivial last = false := hback last (by simp)
        simpa using trimPieces_concat (front ++ above :: back) hlast
    have hempty : front ++ above :: back ≠ [""] := by
      intro heq
      have hmem : above ∈ [""] := heq ▸ List.mem_append_right front List.mem_cons_self
      rw [List.mem_singleton.mp hmem] at habove
      simp [isTrivial] at habove
    have hparent := parent?_of_pieces hpieces hname (by simp)
    rw [htrim, if_neg hempty] at hparent
    rw [List.length_append, List.length_singleton, ancestor, hparent]
    refine ih (pieces_ofPieces (by simp) fun piece hpiece => ?_) fun piece hpiece => ?_
    · have hmem : piece ∈ pieces path := hpieces ▸ List.mem_append_left _ hpiece
      exact no_slash_of_mem_pieces hmem
    · exact hback piece (List.mem_append_left _ hpiece)

/-- Dropping names from a path below a base leads to the path of the chain before them. -/
theorem ancestor_join (base : String) (front : List String) {above : String} {back : List String}
    (hslash : ∀ name ∈ front ++ above :: back, '/' ∉ name.toList)
    (hsteps : ∀ name ∈ front ++ above :: back, isTrivial name = false) :
    ancestor back.length (join base (ofPieces (front ++ above :: back))) =
      join base (ofPieces (front ++ [above])) := by
  have hback : ∀ name ∈ front ++ [above], name ∈ front ++ above :: back := by
    intro name hname
    simp only [List.mem_append, List.mem_cons] at hname ⊢
    tauto
  have hslash' := fun name hname => hslash name (hback name hname)
  have hsteps' := fun name hname => hsteps name (hback name hname)
  obtain ⟨lead, _, hlead⟩ := exists_pieces_join base
  have hlong := hlead _ (isAbsolute_ofPieces (by simp) hslash hsteps)
  have hshort := hlead _ (isAbsolute_ofPieces (by simp) hslash' hsteps')
  rw [pieces_ofPieces (by simp) hslash, ← List.append_assoc] at hlong
  rw [pieces_ofPieces (by simp) hslash', ← List.append_assoc] at hshort
  rw [ancestor_of_pieces hlong (hsteps above (by simp)) fun name hname => hsteps name (by simp [hname]),
    ← hshort, ofPieces_pieces]

end SourceBundle.PathText
