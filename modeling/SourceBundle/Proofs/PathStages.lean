import SourceBundle.Proofs.KeptPaths
import SourceBundle.Proofs.PathParents

/-!
# Paths followed in stages

A path can be followed in stages: a front of its names leads to a place, and the rest is followed
from there, through the links that are left. So what is put behind a path is followed from where the
path leads, and what is put behind its parent from the directory that has its last name.
-/

namespace SourceBundle

namespace FileSystem

open DiskNode

variable {fs : FileSystem} {links : Nat} {place front back : List String}

/-! ## Following a path in stages -/

theorem hop_cons_cases {name : String} {names : List String} {r : Hop}
    (h : hop fs true place (name :: names) = .ok r) :
    ∃ es, fs.root.get? place = some (.directory es) ∧
      ((∃ next, (next = place ∨ next = place.dropLast ∨ next = place ++ [name]) ∧
          ∀ last rest, hop fs last place (name :: rest) = hop fs last next rest) ∨
        (∃ target, fs.root.get? (place ++ [name]) = some (.link target) ∧
          ∀ last rest, hop fs last place (name :: rest) =
            if rest.isEmpty && !last then .ok (.arrived (.found (place ++ [name])))
            else .ok (.throughLink place target rest)) ∨
        names = [] ∧ r = .arrived (.absent place name)) := by
  rw [hop] at h
  simp only [hop]
  cases hget : fs.root.get? place with
  | none => simp [hget] at h
  | some node =>
    rw [hget] at h
    cases node with
    | file bytes => simp at h
    | link target => simp at h
    | directory es =>
      refine ⟨es, rfl, ?_⟩
      have hentry : fs.root.get? (place ++ [name]) = es.lookup name := by
        rw [get?_concat, hget, Option.bind_some, child?, entries]
      dsimp only at h ⊢
      have hfree : fs.barred place name = none := by
        cases hbarred : fs.barred place name with
        | none => rfl
        | some e => simp [hbarred] at h
      rw [hfree] at h
      simp only [hfree]
      dsimp only at h
      by_cases htrivial : PathText.isTrivial name = true
      · exact .inl ⟨place, .inl rfl, fun _ _ => if_pos htrivial⟩
      by_cases hdots : (name == "..") = true
      · exact .inl ⟨place.dropLast, .inr (.inl rfl), fun _ _ => by rw [if_neg htrivial, if_pos hdots]⟩
      by_cases hsize : maxNameSize < (DiskName.bytes name).length
      · simp [htrivial, hdots, hsize] at h
      simp only [htrivial, hdots, hsize, if_false, hentry] at h ⊢
      cases hlookup : es.lookup name with
      | none =>
        rw [hlookup] at h
        by_cases hempty : names = []
        · subst hempty
          cases h
          exact .inr (.inr ⟨rfl, rfl⟩)
        · simp [hempty] at h
      | some node =>
        cases node with
        | link target => exact .inr (.inl ⟨target, rfl, fun _ _ => rfl⟩)
        | file => exact .inl ⟨place ++ [name], .inr (.inr rfl), fun _ _ => rfl⟩
        | directory => exact .inl ⟨place ++ [name], .inr (.inr rfl), fun _ _ => rfl⟩

theorem hop_append_cases {r : Hop} (h : hop fs true place (front ++ back) = .ok r)
    (hback : back ≠ [] ∨ ∀ above name, r ≠ .arrived (.absent above name)) :
    (∃ mid, ∀ last more, (more ≠ [] ∨ last = true) →
      hop fs last place (front ++ more) = hop fs last mid more) ∨
    (∃ above target rest, ∀ last more, (more ≠ [] ∨ last = true) →
      hop fs last place (front ++ more) = .ok (.throughLink above target (rest ++ more))) := by
  induction front generalizing place with
  | nil => exact .inl ⟨place, fun _ _ _ => rfl⟩
  | cons name front ih =>
    simp only [List.cons_append] at h ⊢
    obtain ⟨es, _, ⟨next, _, hnext⟩ | ⟨target, _, hlink⟩ | ⟨hnil, habsent⟩⟩ := hop_cons_cases h
    · rw [hnext] at h
      simp only [hnext]
      exact ih h
    · refine .inr ⟨place, target, front, fun last more hmore => ?_⟩
      rw [hlink, if_neg]
      rcases hmore with hmore | hlast
      · simp [hmore]
      · simp [hlast]
    · rcases hback with hback | hback
      · exact absurd (List.append_eq_nil_iff.mp hnil).2 hback
      · exact absurd habsent (hback place name)

theorem locateFrom_congr {last : Bool} {place' names names' : List String}
    (h : hop fs last place names = hop fs last place' names') :
    locateFrom fs last links place names = locateFrom fs last links place' names' := by
  rw [locateFrom.eq_def, locateFrom.eq_def]
  dsimp only
  rw [h]

theorem locateFrom_arrived {last : Bool} {names : List String} {location : Location}
    (h : hop fs last place names = .ok (.arrived location)) (links : Nat) :
    locateFrom fs last links place names = .ok location := by
  rw [locateFrom.eq_def]
  dsimp only
  rw [h]
  rfl

theorem locateFrom_stages {location : Location}
    (h : locateFrom fs true links place (front ++ back) = .ok location)
    (hback : back ≠ [] ∨ ∀ above name, location ≠ .absent above name) :
    ∃ mid fewer, fewer ≤ links ∧ ∀ last more, (more ≠ [] ∨ last = true) →
      locateFrom fs last links place (front ++ more) = locateFrom fs last fewer mid more := by
  induction links using Nat.strong_induction_on generalizing place front with
  | _ links ih =>
  have hstep := locateFrom_cases h
  obtain ⟨r, hhop, hr⟩ : ∃ r, hop fs true place (front ++ back) = .ok r ∧
      (back ≠ [] ∨ ∀ above name, r ≠ .arrived (.absent above name)) := by
    rcases hstep with hhop | ⟨above, target, rest, _, hhop, _⟩
    · exact ⟨_, hhop, hback.imp_right fun hne => by simpa using hne⟩
    · exact ⟨_, hhop, .inr (by simp)⟩
  obtain ⟨mid, hmid⟩ | ⟨above, target, rest, hlink⟩ := hop_append_cases hhop hr
  · exact ⟨mid, links, le_rfl, fun last more hmore => locateFrom_congr (hmid last more hmore)⟩
  · rw [hlink true back (.inr rfl)] at hstep
    obtain habsurd | ⟨_, _, _, spare, hhop, rfl, hrest⟩ := hstep
    · cases habsurd
    cases hhop
    rw [← List.append_assoc] at hrest
    obtain ⟨mid, fewer, hfewer, hmid⟩ := ih spare (Nat.lt_succ_self spare) hrest
    refine ⟨mid, fewer, hfewer.trans (Nat.le_succ spare), fun last more hmore => ?_⟩
    rw [← hmid last more hmore, locateFrom, hlink last more hmore, List.append_assoc]
    rfl

theorem locateFrom_fewer {last : Bool} {names : List String} {fewer : Nat} (h : fewer ≤ links) :
    locateFrom fs last fewer place names = locateFrom fs last links place names ∨
      locateFrom fs last fewer place names = .error .tooManyLinks := by
  induction fewer generalizing links place names with
  | zero =>
    rw [locateFrom.eq_def fs last 0, locateFrom.eq_def fs last links]
    dsimp only
    rcases hop fs last place names with e | (location | ⟨above, target, rest⟩)
    · exact .inl rfl
    · exact .inl rfl
    · exact .inr rfl
  | succ fewer ih =>
    obtain ⟨links, rfl⟩ := Nat.exists_eq_add_of_lt h
    rw [locateFrom, locateFrom]
    rcases hop fs last place names with e | (location | ⟨above, target, rest⟩)
    · exact .inl rfl
    · exact .inl rfl
    · exact ih (by omega)

theorem hop_trivial_append {last : Bool} {name : String} {names : List String}
    (hfront : ∀ piece ∈ front, PathText.isTrivial piece = true) (hname : name ≠ "") :
    hop fs last place (front ++ name :: names) = hop fs last place (name :: names) := by
  induction front with
  | nil => rfl
  | cons piece front ih =>
    obtain ⟨hpiece, hrest⟩ := List.forall_mem_cons.mp hfront
    rw [List.cons_append, hop, ih hrest, hop]
    split
    next es hget =>
      by_cases hempty : piece = ""
      · simp [barred, hempty, PathText.isTrivial]
      · have hsame : fs.barred place piece = fs.barred place name := by
          simp [barred, hempty, hname]
        rw [hsame]
        split
        · rfl
        · rw [if_pos hpiece]
    next => rfl

theorem hop_trivial {last : Bool} {r : Hop}
    (hfront : ∀ piece ∈ front, PathText.isTrivial piece = true)
    (h : hop fs last place front = .ok r) :
    r = .arrived (.found place) ∧
      (front ≠ [] → ∃ es, fs.root.get? place = some (.directory es)) := by
  induction front with
  | nil =>
    cases h
    exact ⟨rfl, by simp⟩
  | cons piece front ih =>
    obtain ⟨hpiece, hrest⟩ := List.forall_mem_cons.mp hfront
    rw [hop] at h
    split at h
    next es hget =>
      split at h
      next => simp at h
      next =>
        rw [if_pos hpiece] at h
        exact ⟨(ih hrest h).1, fun _ => ⟨es, hget⟩⟩
    next => simp at h

theorem locateFrom_trivial {last : Bool} {location : Location}
    (hfront : ∀ piece ∈ front, PathText.isTrivial piece = true)
    (h : locateFrom fs last links place front = .ok location) :
    location = .found place ∧
      (front ≠ [] → ∃ es, fs.root.get? place = some (.directory es)) := by
  rcases locateFrom_cases h with hhop | ⟨_, _, _, _, hhop, _⟩
  · obtain ⟨harrived, hdirectory⟩ := hop_trivial hfront hhop
    exact ⟨by simpa using harrived, hdirectory⟩
  · simpa using (hop_trivial hfront hhop).1

/-! ## Paths behind a path -/

/-- What is put behind a path is followed from a place, through no more links than any path. -/
def Leads (fs : FileSystem) (path : String) (place : List String) : Prop :=
  ∃ links ≤ maxLinks, ∀ below, PathText.isAbsolute below = false → 0 ∉ PathText.bytes below →
    0 ∉ PathText.bytes (PathText.join path below) ∧
      fs.locatePieces true (PathText.isAbsolute (PathText.join path below))
          (PathText.pieces (PathText.join path below)) =
        locateFrom fs true links place (PathText.pieces below)

theorem checkPath_eq_ok_iff {path : String} :
    checkPath path = .ok () ↔
      0 ∉ PathText.bytes path ∧ path ≠ "" ∧ (PathText.bytes path).length < maxPathSize := by
  rw [checkPath]
  by_cases hnul : 0 ∈ PathText.bytes path
  · simp [hnul]
  by_cases hempty : path = ""
  · subst hempty
    simp [hnul]
  by_cases hsize : maxPathSize ≤ (PathText.bytes path).length
  · simp [hnul, hempty, hsize]
  · simp [hnul, hempty, hsize, Nat.lt_of_not_le hsize]

theorem checkPath_of_locate {last : Bool} {path : String} {location : Location}
    (h : fs.locate last path = .ok location) : checkPath path = .ok () := by
  obtain ⟨_, hcheck, _⟩ := bind_eq_ok_iff.mp h
  exact hcheck

theorem leads_of_stages {path : String} {absolute : Bool} {lead : List String} {links : Nat}
    (hlinks : links ≤ maxLinks) (hnul : ∀ piece ∈ lead, 0 ∉ DiskName.bytes piece)
    (hjoin : ∀ below, PathText.isAbsolute below = false →
      PathText.pieces (PathText.join path below) = lead ++ PathText.pieces below ∧
        PathText.isAbsolute (PathText.join path below) = absolute)
    (hlead : ∀ more, fs.locatePieces true absolute (lead ++ more) =
      locateFrom fs true links place more) : Leads fs path place := by
  refine ⟨links, hlinks, fun below hbelow hnulBelow => ?_⟩
  obtain ⟨hpieces, habsolute⟩ := hjoin below hbelow
  rw [PathText.nul_not_mem_bytes_iff] at hnulBelow ⊢
  rw [habsolute, hpieces, hlead]
  exact ⟨List.forall_mem_append.mpr ⟨hnul, hnulBelow⟩, rfl⟩

theorem leads_of_resolve {path : String} (h : fs.resolve path = .ok place) :
    Leads fs path place := by
  have hlocate := locate_of_resolve h
  obtain ⟨hnul, hne, _⟩ := checkPath_eq_ok_iff.mp (checkPath_of_locate hlocate)
  obtain ⟨lead, hcases, hlead⟩ := PathText.exists_pieces_join path
  obtain ⟨tail, hpieces, htail⟩ : ∃ tail, PathText.pieces path = lead ++ tail ∧
      ∀ piece ∈ tail, PathText.isTrivial piece = true := by
    rcases hcases with ⟨hempty, _⟩ | hsame | hlast
    · exact absurd hempty hne
    · exact ⟨[], by simpa using hsame, by simp⟩
    · exact ⟨[""], hlast, by simp [PathText.isTrivial]⟩
  have hfollowed := locatePieces_of_locate hlocate
  rw [locatePieces, hpieces] at hfollowed
  obtain ⟨mid, links, hlinks, hmid⟩ := locateFrom_stages hfollowed (.inr (by simp))
  rw [hmid true tail (.inr rfl)] at hfollowed
  obtain rfl : mid = place := by simpa using (locateFrom_trivial htail hfollowed).1.symm
  have hnulLead : ∀ piece ∈ lead, 0 ∉ DiskName.bytes piece := fun piece hpiece =>
    PathText.nul_not_mem_bytes_iff.mp hnul piece (hpieces ▸ List.mem_append_left tail hpiece)
  exact leads_of_stages hlinks hnulLead
    (fun below hbelow => ⟨hlead below hbelow, PathText.isAbsolute_join hne hbelow⟩)
    fun more => hmid true more (.inr rfl)

theorem exists_directory_dropLast {es : List (String × DiskNode)}
    (h : fs.root.get? place = some (.directory es)) :
    ∃ es, fs.root.get? place.dropLast = some (.directory es) := by
  by_cases hempty : place = []
  · subst hempty
    exact ⟨es, h⟩
  · obtain ⟨above, habove, hdirectory⟩ := isDirectory_dropLast h hempty
    obtain ⟨es, rfl⟩ := exists_entries hdirectory
    exact ⟨es, habove⟩

theorem exists_of_last_name {name : String} {found : List String}
    (h : locateFrom fs true links place [name] = .ok (.found found))
    (hfound : ∀ es, fs.root.get? found ≠ some (.directory es)) :
    PathText.isTrivial name = false ∧
      (∀ links, locateFrom fs false links place [name] = .ok (.found (place ++ [name]))) ∧
      (found = place ++ [name] ∨ ∃ target, fs.root.get? (place ++ [name]) = some (.link target)) := by
  have htrivial : PathText.isTrivial name = false := by
    by_contra hname
    have hall : ∀ piece ∈ [name], PathText.isTrivial piece = true := by simpa using hname
    obtain ⟨hstay, hdirectory⟩ := locateFrom_trivial hall h
    cases hstay
    obtain ⟨es, hes⟩ := hdirectory (by simp)
    exact hfound es hes
  refine ⟨htrivial, ?_⟩
  obtain ⟨r, hhop⟩ : ∃ r, hop fs true place [name] = .ok r := by
    rcases locateFrom_cases h with hhop | ⟨_, _, _, _, hhop, _⟩
    · exact ⟨_, hhop⟩
    · exact ⟨_, hhop⟩
  obtain ⟨es, hget, ⟨next, hnext, hstep⟩ | ⟨target, htarget, hstep⟩ | ⟨_, rfl⟩⟩ := hop_cons_cases hhop
  · have hnext' := locateFrom_arrived (hstep true []) links
    rw [h] at hnext'
    cases hnext'
    rcases hnext with rfl | rfl | rfl
    · exact absurd hget (hfound es)
    · obtain ⟨es, habove⟩ := exists_directory_dropLast hget
      exact absurd habove (hfound es)
    · exact ⟨locateFrom_arrived (hstep false []), .inl rfl⟩
  · exact ⟨locateFrom_arrived (hstep false []), .inr ⟨target, htarget⟩⟩
  · have habsent := locateFrom_arrived hhop links
    rw [h] at habsent
    cases habsent

/-- What is put behind the parent of a path is followed from where the last name of the path stands,
if that leads to something that is no directory. -/
theorem exists_leads_parent {path : String} {found : List String}
    (h : fs.resolve path = .ok found) (hfound : ∀ es, fs.root.get? found ≠ some (.directory es)) :
    ∃ parent above name, PathText.parent? path = some parent ∧ Leads fs parent above ∧
      fs.locate false path = .ok (.found (above ++ [name])) ∧
      (found = above ++ [name] ∨ ∃ target, fs.root.get? (above ++ [name]) = some (.link target)) := by
  have hlocate := locate_of_resolve h
  have hcheck := checkPath_of_locate hlocate
  obtain ⟨hnul, _⟩ := checkPath_eq_ok_iff.mp hcheck
  obtain ⟨front, name, hpieces⟩ :=
    (List.eq_nil_or_concat' (PathText.pieces path)).resolve_left (PathText.pieces_ne_nil path)
  have hfollowed := locatePieces_of_locate hlocate
  rw [locatePieces, hpieces] at hfollowed
  have htrivial : PathText.isTrivial name = false := by
    obtain ⟨mid, links, _, hmid⟩ := locateFrom_stages hfollowed (.inl (by simp))
    rw [hmid true [name] (.inr rfl)] at hfollowed
    exact (exists_of_last_name hfollowed hfound).1
  have hnonempty : name ≠ "" := by
    rintro rfl
    simp [PathText.isTrivial] at htrivial
  obtain ⟨parent, lead, tail, hparent, rfl, htail, hbehind⟩ := PathText.exists_parent hpieces htrivial
  rw [List.append_assoc] at hpieces hfollowed
  obtain ⟨mid, links, hlinks, hmid⟩ := locateFrom_stages hfollowed (.inl (by simp))
  have hstep : ∀ last, locateFrom fs last links mid (tail ++ [name]) =
      locateFrom fs last links mid [name] :=
    fun last => locateFrom_congr (hop_trivial_append htail hnonempty)
  rw [hmid true _ (.inr rfl), hstep] at hfollowed
  obtain ⟨_, hstands, hlink⟩ := exists_of_last_name hfollowed hfound
  have hnulLead : ∀ piece ∈ lead, 0 ∉ DiskName.bytes piece := fun piece hpiece =>
    PathText.nul_not_mem_bytes_iff.mp hnul piece (hpieces ▸ List.mem_append_left _ hpiece)
  refine ⟨parent, mid, name, hparent, ?_, ?_, hlink⟩
  · exact leads_of_stages hlinks hnulLead hbehind fun more => hmid true more (.inr rfl)
  · refine bind_eq_ok_iff.mpr ⟨_, hcheck, mapError_eq_ok_iff.mpr ?_⟩
    rw [locatePieces, hpieces, hmid false _ (.inl (by simp)), hstep]
    exact hstands links

end FileSystem

end SourceBundle
