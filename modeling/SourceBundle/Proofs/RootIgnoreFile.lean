import SourceBundle.Proofs.IgnorePrecedence
import SourceBundle.Proofs.PathStages
import SourceBundle.Proofs.SelectedFiles

/-!
# The root's own ignore file

The ignore file of a root is looked for beside the name by which the root is given, while the walk
begins where that name leads. For a root that is a directory, or a file under its own name, both are
the same directory. A link to a file stands in a directory of its own, and it is that directory's
ignore file which is used.
-/

namespace SourceBundle

namespace FileSystem

open DiskNode

variable {fs : FileSystem} {place : List String}

/-! ## The file beside a name -/

/-- The bytes of the file that a name leads to from a place. -/
def fileIn? (fs : FileSystem) (place : List String) (name : String) : Option (List UInt8) :=
  match locateFrom fs true maxLinks place [name] with
  | .ok (.found found) =>
    match fs.root.get? found with
    | some (.file bytes) => some bytes
    | _ => none
  | _ => none

/-- A path too long, or through too many links, to be followed. -/
def OutOfReach (fs : FileSystem) (path : String) : Prop :=
  maxPathSize ≤ (PathText.bytes path).length ∨ fs.resolve path = .error (.os .tooManyLinks)

theorem Leads.node?_iff {path name : String} (h : Leads fs path place)
    (hname : PathText.pieces name = [name]) (hrelative : PathText.isAbsolute name = false)
    (hnul : 0 ∉ PathText.bytes name) (hne : name ≠ "")
    (hreach : ¬OutOfReach fs (PathText.join path name)) (bytes : List UInt8) :
    fs.node? (PathText.join path name) = some (.file bytes) ↔
      fs.fileIn? place name = some bytes := by
  obtain ⟨links, hlinks, hbehind⟩ := h
  obtain ⟨hnulJoin, hpieces⟩ := hbehind name hrelative hnul
  rw [hname] at hpieces
  have hjoin : PathText.join path name ≠ "" := by
    rw [PathText.join, if_neg (by simp [hrelative])]
    split <;> simp [hne]
  rw [OutOfReach, not_or, Nat.not_le] at hreach
  have hcheck := checkPath_eq_ok_iff.mpr ⟨hnulJoin, hjoin, hreach.1⟩
  have hlocate : fs.locate true (PathText.join path name) =
      (locateFrom fs true links place [name]).mapError .os := by
    rw [locate, hcheck, hpieces]
    rfl
  have hfull : locateFrom fs true links place [name] =
      locateFrom fs true maxLinks place [name] := by
    refine (locateFrom_fewer hlinks).resolve_right fun hmany => hreach.2 ?_
    rw [resolve, hlocate, hmany]
    rfl
  rw [node?, fileIn?, resolve, hlocate, hfull]
  rcases locateFrom fs true maxLinks place [name] with e | (found | ⟨above, missing⟩)
  · simp [Except.mapError, bind, Except.bind]
  · simp only [Except.mapError, bind, Except.bind]
    cases hget : fs.root.get? found with
    | none => simp
    | some node => cases node <;> simp
  · simp [Except.mapError, bind, Except.bind]

theorem OutOfReach.node?_eq_none {path : String} (h : OutOfReach fs path) :
    fs.node? path = none := by
  rw [node?]
  cases hresolve : fs.resolve path with
  | error e => rfl
  | ok found =>
    rcases h with hsize | hmany
    · have hcheck := checkPath_eq_ok_iff.mp (checkPath_of_locate (locate_of_resolve hresolve))
      omega
    · simp [hmany] at hresolve

/-- Where a root stands: the directory that it leads to, or the one that has the name of the file. -/
inductive StandsIn (fs : FileSystem) (root : String) : List String → Prop
  | directory {found} (there : fs.isDirectory root = true) (leads : fs.resolve root = .ok found) :
    StandsIn fs root found
  | file {above name} (there : fs.isFile root = true)
    (stands : fs.locate false root = .ok (.found (above ++ [name]))) : StandsIn fs root above

end FileSystem

namespace BundlePlan

variable {fs : FileSystem} {plan : BundlePlan} {base : List String}

def ownIgnorePath (fs : FileSystem) (plan : BundlePlan) : String :=
  PathText.join (ignoreDirectory fs plan.root) ".gitignore"

def withoutOwn (plan : BundlePlan) : BundlePlan :=
  { plan with gitignore := false }

/-- The plan ignores by the lines of the root's own ignore file, behind those of the files that it
names, or by no others. A file of its own that the system refuses to read leaves it without rules. -/
inductive IgnoresBy (fs : FileSystem) (plan : BundlePlan) : Option (List UInt8) → Prop
  | nothing (paths : plan.ignorePaths fs = plan.ignoreFiles)
    (rules : plan.rules fs = plan.withoutOwn.rules fs) : IgnoresBy fs plan none
  | lines {bytes} (paths : plan.ignorePaths fs = plan.ignoreFiles ++ [plan.ownIgnorePath fs])
    (contents : fs.read (plan.ownIgnorePath fs) = .ok bytes)
    (rules : plan.rules fs = (plan.withoutOwn.rules fs).map fun rules =>
      rules.withHigherPrecedence (RuleSet.ofBytes bytes []).negateAll) :
    IgnoresBy fs plan (some bytes)
  | refused {bytes cause} (paths : plan.ignorePaths fs = plan.ignoreFiles ++ [plan.ownIgnorePath fs])
    (contents : fs.read (plan.ownIgnorePath fs) = .error cause)
    (rules : plan.rules fs = plan.withoutOwn.rules fs >>= fun _ =>
      .error (.ignoreFile ⟨plan.ownIgnorePath fs, cause⟩)) : IgnoresBy fs plan (some bytes)

theorem ignorePaths_eq (hown : plan.gitignore = true) :
    plan.ignorePaths fs = plan.ignoreFiles ++
      if fs.isFile (plan.ownIgnorePath fs) then [plan.ownIgnorePath fs] else [] := by
  rw [ignorePaths, hown, Bool.true_and]
  rfl

theorem rules_withoutOwn (fs : FileSystem) (plan : BundlePlan) :
    plan.withoutOwn.rules fs =
      plan.ignoreFiles.foldlM (addIgnoreFile fs) (RuleSet.compile plan.filters) := by
  simp [rules, ignorePaths, withoutOwn]

theorem ignoresBy_of_node? {found : Option (List UInt8)} (hown : plan.gitignore = true)
    (hnode : ∀ bytes, fs.node? (plan.ownIgnorePath fs) = some (.file bytes) ↔ found = some bytes) :
    plan.IgnoresBy fs found := by
  cases found with
  | none =>
    have hfile : fs.isFile (plan.ownIgnorePath fs) = false := by
      rw [FileSystem.isFile]
      cases hfound : fs.node? (plan.ownIgnorePath fs) with
      | none => rfl
      | some node =>
        cases node with
        | file bytes => simpa using (hnode bytes).mp hfound
        | directory => rfl
        | link => rfl
    have hpaths : plan.ignorePaths fs = plan.ignoreFiles := by simp [ignorePaths_eq hown, hfile]
    exact .nothing hpaths (by rw [rules, hpaths, rules_withoutOwn])
  | some bytes =>
    have hfound := (hnode bytes).mpr rfl
    have hfile : fs.isFile (plan.ownIgnorePath fs) = true := by
      simp [FileSystem.isFile, hfound, DiskNode.isFile]
    have hpaths : plan.ignorePaths fs = plan.ignoreFiles ++ [plan.ownIgnorePath fs] := by
      simp [ignorePaths_eq hown, hfile]
    cases hread : fs.read (plan.ownIgnorePath fs) with
    | error cause =>
      refine .refused hpaths hread ?_
      rw [rules, hpaths, List.foldlM_append, rules_withoutOwn]
      simp [addIgnoreFile_of_error hread]
    | ok bytes' =>
      obtain ⟨place, hresolve, _, hplace⟩ := FileSystem.read_eq_ok_iff.mp hread
      have hsame : bytes' = bytes := by
        rw [FileSystem.node?, hresolve] at hfound
        simpa [hplace] using hfound
      refine .lines hpaths (hsame ▸ hread) ?_
      rw [rules, hpaths, List.foldlM_append, rules_withoutOwn]
      cases plan.ignoreFiles.foldlM (addIgnoreFile fs) (RuleSet.compile plan.filters) with
      | error cause => rfl
      | ok rules =>
        simp [addIgnoreFile_of_ok hread, hsame, bind, Except.bind, pure, Except.pure, Except.map]

/-- A root that is there stands somewhere, and its own ignore file is looked for where it stands. This
is the walked directory, unless the root is a link to a file. -/
theorem exists_standsIn (hbase : Walk.base fs plan.root = .ok base) :
    ∃ home, fs.StandsIn plan.root home ∧ fs.Leads (ignoreDirectory fs plan.root) home ∧
      (home = base ∨ ∃ name target, fs.isFile plan.root = true ∧
        fs.locate false plan.root = .ok (.found (home ++ [name])) ∧
        fs.root.get? (home ++ [name]) = some (.link target)) := by
  obtain ⟨found, node, hcanonical, hnode, hplace⟩ := Walk.base_eq_ok_iff.mp hbase
  have hresolve := (FileSystem.canonicalize_eq_ok_iff.mp hcanonical).1
  rcases FileSystem.cases_of_resolve hresolve with
    ⟨hdirectory, hfile, es, hget⟩ | ⟨hfile, bytes, hget⟩
  · cases hnode.symm.trans hget
    refine ⟨found, .directory hdirectory hresolve, ?_, .inl hplace.symm⟩
    rw [ignoreDirectory, if_neg (by simp [hfile])]
    exact FileSystem.leads_of_resolve hresolve
  · cases hnode.symm.trans hget
    obtain ⟨parent, above, name, hparent, hleads, hstands, hlink⟩ :=
      FileSystem.exists_leads_parent hresolve (by simp [hget])
    refine ⟨above, .file hfile hstands, ?_, ?_⟩
    · rw [ignoreDirectory, if_pos hfile, hparent]
      exact hleads
    · rcases hlink with rfl | ⟨target, htarget⟩
      · exact .inl (by simp [hplace, DiskNode.isDirectory])
      · exact .inr ⟨name, target, hfile, hstands, htarget⟩

/-- The root's own ignore file is the one where the root stands, if that can be reached; where there
is none, none is used. The walk begins where the root stands, but for a link to a file: that stands in
the directory that has the link, and the walk begins in the one that has the file. -/
theorem ignores_where_root_stands (hown : plan.gitignore = true)
    (hbase : Walk.base fs plan.root = .ok base) :
    ∃ home, fs.StandsIn plan.root home ∧
      (home = base ∨ ∃ name target, fs.isFile plan.root = true ∧
        fs.locate false plan.root = .ok (.found (home ++ [name])) ∧
        fs.root.get? (home ++ [name]) = some (.link target)) ∧
      (plan.IgnoresBy fs (fs.fileIn? home ".gitignore") ∨
        fs.OutOfReach (plan.ownIgnorePath fs) ∧ plan.IgnoresBy fs none) := by
  obtain ⟨home, hstands, hleads, hwalked⟩ := exists_standsIn hbase
  refine ⟨home, hstands, hwalked, ?_⟩
  by_cases hreach : fs.OutOfReach (plan.ownIgnorePath fs)
  · refine .inr ⟨hreach, ignoresBy_of_node? hown fun bytes => ?_⟩
    simpa using fun h => by simp [hreach.node?_eq_none] at h
  · refine .inl (ignoresBy_of_node? hown ?_)
    exact hleads.node?_iff rfl (by decide) (by decide) (by decide) hreach

/-! ### A link to a file of another directory -/

def linkedProject : FileSystem where
  root := .directory
    [("p", .directory [("a.txt", .file [104, 105]), ("b.txt", .file [104, 111]),
      (".gitignore", .file [98, 46, 116, 120, 116, 10])]),
     ("q", .directory [("l", .link "../p/a.txt")])]

def linkedPlan : BundlePlan where
  root := "/q/l"
  gitignore := true
  registry := {}

theorem linkedProject_walked :
    Walk.base linkedProject linkedPlan.root = .ok ["p"] ∧
      linkedProject.fileIn? ["p"] ".gitignore" = some [98, 46, 116, 120, 116, 10] ∧
      linkedPlan.ignorePaths linkedProject = [] := by
  decide +kernel

theorem linkedProject_ignores_where_link_stands :
    linkedPlan.gitignore = true ∧ Walk.base linkedProject linkedPlan.root = .ok ["p"] ∧
      ∃ home, linkedProject.StandsIn linkedPlan.root home ∧
        (home = ["p"] ∨ ∃ name target, linkedProject.isFile linkedPlan.root = true ∧
          linkedProject.locate false linkedPlan.root = .ok (.found (home ++ [name])) ∧
          linkedProject.root.get? (home ++ [name]) = some (.link target)) ∧
        (linkedPlan.IgnoresBy linkedProject (linkedProject.fileIn? home ".gitignore") ∨
          linkedProject.OutOfReach (linkedPlan.ownIgnorePath linkedProject) ∧
            linkedPlan.IgnoresBy linkedProject none) :=
  ⟨rfl, linkedProject_walked.1, ignores_where_root_stands rfl linkedProject_walked.1⟩

theorem linkedProject_proper : linkedProject.root.Proper := by
  have hfiles : (DiskNode.directory [("a.txt", .file [104, 105]), ("b.txt", .file [104, 111]),
      (".gitignore", .file [98, 46, 116, 120, 116, 10])]).Proper :=
    .directory (by decide) (by decide) (by simp [DiskNode.Proper.file])
  have hlink : (DiskNode.directory [("l", .link "../p/a.txt")]).Proper :=
    .directory (by decide) (by decide) (by simp [DiskNode.Proper.link])
  exact .directory (by decide) (by decide) (by simp [hfiles, hlink])

/-- The directory that is walked has an ignore file, which is not used. -/
theorem walked_ignore_file_unused :
    ¬∀ (fs : FileSystem) (plan : BundlePlan) (base : List String), fs.root.Proper →
      plan.gitignore = true → Walk.base fs plan.root = .ok base →
      plan.IgnoresBy fs (fs.fileIn? base ".gitignore") := by
  intro h
  obtain ⟨hbase, hthere, hunused⟩ := linkedProject_walked
  have hignores := h linkedProject linkedPlan ["p"] linkedProject_proper rfl hbase
  rw [hthere] at hignores
  cases hignores with
  | lines paths => simp [hunused] at paths
  | refused paths => simp [hunused] at paths

end BundlePlan

end SourceBundle
