import SourceBundle.Document
import SourceBundle.Proofs.WalkListing

/-!
# The files that are selected

Which entries a walk from any root has for its files, and what of them can be read.
-/

namespace SourceBundle

def DiskNode.directoryPlaces : Nat → DiskNode → List (List String)
  | 0, .directory _ => [[]]
  | depth + 1, .directory es =>
    [] :: es.flatMap fun e => (directoryPlaces depth e.2).map (e.1 :: ·)
  | _, _ => []

theorem DiskNode.mem_directoryPlaces {depth : Nat} {tree : DiskNode} {place : List String}
    {es : List (String × DiskNode)} (hp : tree.Proper)
    (hget : tree.get? place = some (.directory es)) (hdepth : place.length ≤ depth) :
    place ∈ directoryPlaces depth tree := by
  induction place generalizing depth tree with
  | nil =>
    cases hget
    cases depth <;> simp [directoryPlaces]
  | cons name rest ih =>
    obtain ⟨child, hchild, hrest⟩ := hp.get?_cons_iff.mp hget
    obtain ⟨depth, rfl⟩ := Nat.exists_eq_add_of_lt (Nat.lt_of_lt_of_le (Nat.succ_pos _) hdepth)
    cases hp with
    | directory _ _ below =>
      have hplace := ih (below _ hchild) hrest (by simpa using hdepth)
      rw [Nat.zero_add, directoryPlaces]
      exact List.mem_cons_of_mem _ (List.mem_flatMap.mpr ⟨_, hchild, List.mem_map.mpr ⟨_, hplace, rfl⟩⟩)
    | file => simp [entries] at hchild
    | link => simp [entries] at hchild

namespace FileSystem

variable {fs : FileSystem} {path : String} {bytes : List UInt8}

theorem listable_of_places (hp : fs.root.Proper)
    (h : ∀ place ∈ DiskNode.directoryPlaces fs.root.count fs.root,
      fs.resolve (pathOf place) = .ok place ∧ fs.refuses .list place = none)
    {place : List String} (hplace : fs.DirectoryAt place) : fs.Listable place := by
  obtain ⟨es, hes⟩ := hplace
  obtain ⟨hresolve, hgranted⟩ :=
    h place (DiskNode.mem_directoryPlaces hp hes (DiskNode.length_lt_count hes).le)
  exact ⟨es, list_eq_ok_iff.mpr ⟨place, hresolve, hes, hgranted⟩⟩

theorem read_eq_ok_iff :
    fs.read path = .ok bytes ↔ ∃ place, fs.resolve path = .ok place ∧
      fs.refuses .read place = none ∧ fs.root.get? place = some (.file bytes) := by
  simp only [read, bind_eq_ok_iff, allow_eq_ok_iff]
  refine exists_congr fun place => and_congr_right fun _ => ?_
  cases hget : fs.root.get? place with
  | none => simp
  | some node => cases node <;> simp

theorem isFile_of_read (h : fs.read path = .ok bytes) : fs.isFile path = true := by
  obtain ⟨place, hresolve, _, hfile⟩ := read_eq_ok_iff.mp h
  simp [isFile, node?, hresolve, hfile, DiskNode.isFile]

/-- Where every file can be read at its own path, it can be read at any path that leads to it. -/
theorem exists_read_iff (hp : fs.root.Proper)
    (hreadable : ∀ place bytes, fs.root.get? place = some (.file bytes) →
      ∃ found, fs.read (pathOf place) = .ok found) :
    (∃ bytes, fs.read path = .ok bytes) ↔ fs.isFile path = true := by
  refine ⟨fun ⟨bytes, hread⟩ => isFile_of_read hread, fun hfile => ?_⟩
  rw [isFile, node?] at hfile
  cases hresolve : fs.resolve path with
  | error e => simp [hresolve] at hfile
  | ok place =>
    simp only [hresolve, Option.any_eq_true] at hfile
    obtain ⟨node, hnode, hfile⟩ := hfile
    cases node with
    | directory => simp [DiskNode.isFile] at hfile
    | link => simp [DiskNode.isFile] at hfile
    | file bytes =>
      obtain ⟨found, hread⟩ := hreadable place bytes hnode
      obtain ⟨there, hthere, hgranted, _⟩ := read_eq_ok_iff.mp hread
      rw [resolve_pathOf hp hnode (by simp) hthere] at hgranted
      exact ⟨bytes, read_eq_ok_iff.mpr ⟨place, hresolve, hgranted, hnode⟩⟩

end FileSystem

namespace Walk

variable {fs : FileSystem} {place : List String}

theorem files_withAncestors (displayBase : List String) (kept : List Leaf) :
    Document.files (withAncestors displayBase (kept.map (fileAt fs place))) =
      kept.map (fileAt fs place) := by
  have hfiles : ∀ entry ∈ kept.map (fileAt fs place), entry.isDir = false :=
    List.forall_mem_map.mpr fun leaf _ => rfl
  simp only [Document.files, withAncestors, List.filter_append]
  rw [List.filter_eq_nil_iff.mpr, List.nil_append, List.filter_eq_self.mpr]
  · intro entry hentry
    simp [hfiles entry hentry]
  · exact List.forall_mem_map.mpr fun relative _ => by simp [PathEntry.directory]

theorem mem_leavesOf_of_leafSize? {tree : DiskNode} (hp : tree.Proper) {size : Nat}
    (h : (tree.get? place).bind DiskNode.leafSize? = some size) :
    (⟨place, size⟩ : Leaf) ∈ leavesOf tree.count tree := by
  obtain ⟨node, hnode, _⟩ := Option.bind_eq_some_iff.mp h
  have hdepth := DiskNode.length_lt_count hnode
  exact (mem_leavesOf_iff hp).mpr ⟨hdepth.le, h⟩

theorem size_of_file {tree : DiskNode} {bytes : List UInt8}
    (h : tree.get? place = some (.file bytes)) :
    (tree.get? place).bind DiskNode.leafSize? = some bytes.length := by
  simp [h, DiskNode.leafSize?]

theorem smallProject_read :
    leavesOf DiskNode.smallProject.count DiskNode.smallProject =
        [⟨["home", "project", "go.mod"], 0⟩, ⟨["home", "project", "latest"], 11⟩,
          ⟨["home", "project", "src", "main.go"], 1⟩] ∧
      FileSystem.smallProject.read (FileSystem.pathOf ["home", "project", "go.mod"]) = .ok [] ∧
      FileSystem.smallProject.read (FileSystem.pathOf ["home", "project", "latest"]) = .ok [112] ∧
      FileSystem.smallProject.read (FileSystem.pathOf ["home", "project", "src", "main.go"]) =
        .ok [112] ∧
      ∀ place ∈ DiskNode.directoryPlaces DiskNode.smallProject.count DiskNode.smallProject,
        FileSystem.smallProject.resolve (FileSystem.pathOf place) = .ok place ∧
          FileSystem.smallProject.refuses .list place = none := by
  decide +kernel

theorem smallProject_readable {place : List String} {bytes : List UInt8}
    (h : FileSystem.smallProject.root.get? place = some (.file bytes)) :
    ∃ found, FileSystem.smallProject.read (FileSystem.pathOf place) = .ok found := by
  obtain ⟨hleaves, hmod, hlatest, hmain, -⟩ := smallProject_read
  have hmem := mem_leavesOf_of_leafSize? DiskNode.smallProject_proper (size_of_file h)
  rw [hleaves] at hmem
  simp only [List.mem_cons, Leaf.mk.injEq, List.not_mem_nil, or_false] at hmem
  rcases hmem with ⟨rfl, _⟩ | ⟨rfl, _⟩ | ⟨rfl, _⟩
  · exact ⟨_, hmod⟩
  · exact ⟨_, hlatest⟩
  · exact ⟨_, hmain⟩

theorem smallProject_listable {place : List String}
    (h : FileSystem.smallProject.DirectoryAt place) : FileSystem.smallProject.Listable place :=
  FileSystem.listable_of_places DiskNode.smallProject_proper smallProject_read.2.2.2.2 h

end Walk

end SourceBundle
