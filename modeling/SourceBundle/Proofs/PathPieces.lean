import Mathlib.Data.List.Basic
import SourceBundle.FileSystem
import SourceBundle.PathEntry

/-!
# The pieces of paths

Splitting a path at its slashes and joining names with slashes undo each other, and a path that is
put behind a directory's path is the path of the place that both lead to.
-/

namespace SourceBundle

theorem splitAtEach_eq (sep : Char) (cs : List Char) : splitAtEach sep cs = cs.splitOn sep := by
  induction cs with
  | nil => simp [splitAtEach]
  | cons c cs ih =>
    rw [splitAtEach, ih, List.splitOn_cons_eq_if_modifyHead]
    by_cases hc : (c == sep) = true
    · simp [hc]
    · obtain ⟨piece, pieces, hpieces⟩ := List.exists_cons_of_ne_nil (List.splitOn_ne_nil sep cs)
      simp [hc, hpieces]

theorem sep_not_mem_of_mem_splitAtEach {sep : Char} {cs piece : List Char}
    (h : piece ∈ splitAtEach sep cs) : sep ∉ piece := by
  fun_induction splitAtEach sep cs generalizing piece with
  | case1 => simp_all
  | case2 c cs hc ih =>
    rcases List.mem_cons.mp h with rfl | h
    · exact List.not_mem_nil
    · exact ih h
  | case3 c cs hc first rest heq ih =>
    rw [heq] at ih
    rcases List.mem_cons.mp h with rfl | h
    · have hne : sep ≠ c := fun hsep => hc (by simp [hsep])
      exact List.not_mem_cons_of_ne_of_not_mem hne (ih List.mem_cons_self)
    · exact ih (List.mem_cons_of_mem first h)
  | case4 c cs hc heq ih =>
    rw [List.mem_singleton.mp h, List.mem_singleton]
    exact fun hsep => hc (by simp [hsep])

/-- A name that an entry of a directory can have. -/
structure ProperName (name : String) : Prop where
  nonempty : name ≠ ""
  no_slash : '/' ∉ name.toList
  no_dot : name ≠ "."
  no_dots : name ≠ ".."

instance (name : String) : Decidable (ProperName name) :=
  decidable_of_iff (name ≠ "" ∧ '/' ∉ name.toList ∧ name ≠ "." ∧ name ≠ "..")
    ⟨fun ⟨nonempty, no_slash, no_dot, no_dots⟩ => ⟨nonempty, no_slash, no_dot, no_dots⟩,
      fun h => ⟨h.nonempty, h.no_slash, h.no_dot, h.no_dots⟩⟩

namespace ProperName

variable {name : String}

theorem exists_cons (h : ProperName name) : ∃ c cs, name.toList = c :: cs ∧ c ≠ '/' := by
  obtain ⟨c, cs, hname⟩ := List.exists_cons_of_ne_nil (mt String.toList_eq_nil_iff.mp h.nonempty)
  exact ⟨c, cs, hname, fun hc => h.no_slash (by simp [hname, hc])⟩

theorem exists_concat (h : ProperName name) : ∃ cs c, name.toList = cs ++ [c] ∧ c ≠ '/' := by
  obtain ⟨cs, c, hname⟩ := (List.eq_nil_or_concat' name.toList).resolve_left
    (mt String.toList_eq_nil_iff.mp h.nonempty)
  exact ⟨cs, c, hname, fun hc => h.no_slash (by simp [hname, hc])⟩

end ProperName

namespace PathText

variable {names : List String}

theorem pieces_eq (path : String) :
    pieces path = (path.toList.splitOn '/').map String.ofList := by
  rw [pieces, splitText, splitAtEach_eq]

theorem pieces_ne_nil (path : String) : pieces path ≠ [] := by
  simp [pieces_eq]

theorem no_slash_of_mem_pieces {path piece : String} (h : piece ∈ pieces path) :
    '/' ∉ piece.toList := by
  rw [pieces, splitText, List.mem_map] at h
  obtain ⟨cs, hcs, rfl⟩ := h
  simpa using sep_not_mem_of_mem_splitAtEach hcs

theorem toList_ofPieces (names : List String) :
    (ofPieces names).toList = ['/'].intercalate (names.map String.toList) :=
  String.toList_intercalate

/-- Names with slashes between them are found again. -/
theorem pieces_ofPieces (hne : names ≠ []) (h : ∀ name ∈ names, '/' ∉ name.toList) :
    pieces (ofPieces names) = names := by
  rw [pieces_eq, toList_ofPieces, List.splitOn_intercalate '/' (by simpa using h) (by simpa using hne)]
  simp [Function.comp_def]

theorem ofPieces_pieces (path : String) : ofPieces (pieces path) = path := by
  rw [← String.toList_inj, toList_ofPieces, pieces_eq, List.map_map]
  simp [Function.comp_def, List.intercalate_splitOn]

theorem ofPieces_append {front back : List String} (hf : front ≠ []) (hb : back ≠ []) :
    ofPieces (front ++ back) = ofPieces front ++ "/" ++ ofPieces back :=
  String.intercalate_append_of_ne_nil hf hb

theorem ofPieces_singleton (name : String) : ofPieces [name] = name :=
  String.intercalate_singleton

theorem ofPieces_cons (name : String) {rest : List String} (hrest : rest ≠ []) :
    ofPieces (name :: rest) = name ++ "/" ++ ofPieces rest :=
  String.intercalate_cons_of_ne_nil hrest

theorem ofPieces_concat {front : List String} (hfront : front ≠ []) (name : String) :
    ofPieces (front ++ [name]) = ofPieces front ++ "/" ++ name := by
  rw [ofPieces_append hfront (List.cons_ne_nil name []), ofPieces_singleton]

theorem ofPieces_begins (hne : names ≠ []) (h : ∀ name ∈ names, ProperName name) :
    ∃ c cs, (ofPieces names).toList = c :: cs ∧ c ≠ '/' := by
  obtain ⟨name, rest, rfl⟩ := List.exists_cons_of_ne_nil hne
  obtain ⟨c, cs, hname, hc⟩ := (h name List.mem_cons_self).exists_cons
  by_cases hrest : rest = []
  · exact ⟨c, cs, by rw [hrest, ofPieces_singleton, hname], hc⟩
  · exact ⟨c, _, by simp [ofPieces_cons name hrest, hname]; rfl, hc⟩

theorem ofPieces_ends (hne : names ≠ []) (h : ∀ name ∈ names, ProperName name) :
    ∃ cs c, (ofPieces names).toList = cs ++ [c] ∧ c ≠ '/' := by
  obtain ⟨front, name, rfl⟩ := (List.eq_nil_or_concat' names).resolve_left hne
  obtain ⟨cs, c, hname, hc⟩ := (h name (by simp)).exists_concat
  by_cases hfront : front = []
  · exact ⟨cs, c, by simp [hfront, ofPieces_singleton, hname], hc⟩
  · refine ⟨(ofPieces front).toList ++ '/' :: cs, c, ?_, hc⟩
    simp [ofPieces_concat hfront, hname]

theorem depthOf_eq {path : String} (h : ∀ piece ∈ pieces path, ProperName piece) :
    PathEntry.depthOf path = (pieces path).length := by
  rw [PathEntry.depthOf, List.filter_eq_self.mpr]
  intro piece hpiece
  simpa using (h piece hpiece).nonempty

end PathText

namespace FileSystem

open PathText

variable {above names : List String}

theorem join_pathOf (habove : ∀ name ∈ above, ProperName name)
    (hnames : ∀ name ∈ names, ProperName name) (hne : names ≠ []) :
    join (pathOf above) (ofPieces names) = pathOf (above ++ names) := by
  obtain ⟨c, cs, hbegins, hc⟩ := ofPieces_begins hne hnames
  have hrelative : isAbsolute (ofPieces names) = false := by simp [isAbsolute, hbegins, hc]
  have hstart : pathOf above ≠ "" := by simp [pathOf, ← String.toList_inj]
  by_cases hempty : above = []
  · have hroot : pathOf above = "/" := by rw [hempty]; rfl
    have hslash : (pathOf above).toList.getLast? = some '/' := by rw [hroot]; rfl
    rw [join, if_neg (by simp [hrelative]), if_pos (by simp [hslash]), hroot, hempty]
    rfl
  · obtain ⟨ds, d, hends, hd⟩ := ofPieces_ends hempty habove
    have hname : (pathOf above).toList.getLast? = some d := by
      rw [pathOf, String.toList_append, hends, ← List.append_assoc, List.getLast?_concat]
    rw [join, if_neg (by simp [hrelative]), if_neg (by simp [hstart, hname, hd]), pathOf, pathOf,
      ofPieces_append hempty hne]
    simp [String.append_assoc]

end FileSystem

end SourceBundle
