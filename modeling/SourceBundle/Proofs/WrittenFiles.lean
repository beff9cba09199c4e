import SourceBundle.Document
import SourceBundle.Proofs.KeptPaths

/-!
# Files that are written

Writing a document makes the directories on the way to it and gives one file new contents. No other
file is touched, and where the writing fails no file is. A document that has been written can be
written again, to the same file.
-/

namespace SourceBundle

namespace DiskNode

variable {root root' root'' node : DiskNode} {place above : List String} {name : String}
  {es : List (String × DiskNode)}

/-! ## What is spared -/

/-- At the place is what was there, whatever is below it, or a directory where nothing was. -/
def Spared (root root' : DiskNode) (place : List String) : Prop :=
  (root'.get? place).map bare = (root.get? place).map bare ∨
    root.get? place = none ∧ (root'.get? place).map bare = some (.directory [])

theorem Spared.refl (root : DiskNode) (place : List String) : root.Spared root place := .inl rfl

theorem Spared.trans (h : root.Spared root' place) (h' : root'.Spared root'' place) :
    root.Spared root'' place := by
  rcases h with h | ⟨hnone, h⟩
  · rcases h' with h' | ⟨hnone', h'⟩
    · exact .inl (h'.trans h)
    · refine .inr ⟨?_, h'⟩
      rw [hnone', Option.map_none, eq_comm, Option.map_eq_none_iff] at h
      exact h
  · rcases h' with h' | ⟨hnone', h'⟩
    · exact .inr ⟨hnone, h'.trans h⟩
    · simp [hnone'] at h

@[simp] theorem bare_eq_file_iff {bytes : List UInt8} :
    node.bare = .file bytes ↔ node = .file bytes := by
  cases node <;> simp [bare]

@[simp] theorem bare_eq_link_iff {target : String} :
    node.bare = .link target ↔ node = .link target := by
  cases node <;> simp [bare]

theorem isDirectory_of_bare (h : node.bare = .directory []) : node.isDirectory = true := by
  cases node <;> simp_all [bare, isDirectory]

theorem Alike.of_bare {node' : DiskNode} (h : node'.bare = node.bare) : node.Alike node' := by
  cases node with
  | file bytes =>
    rw [bare_eq_file_iff.mp h]
    exact .file
  | link target =>
    rw [bare_eq_link_iff.mp h]
    exact .link
  | directory es =>
    obtain ⟨es', rfl⟩ := exists_entries (isDirectory_of_bare h)
    exact .directory

theorem map_bare_eq_file_iff {there : Option DiskNode} {bytes : List UInt8} :
    there.map bare = some (.file bytes) ↔ there = some (.file bytes) := by
  cases there <;> simp

theorem map_bare_eq_link_iff {there : Option DiskNode} {target : String} :
    there.map bare = some (.link target) ↔ there = some (.link target) := by
  cases there <;> simp

namespace Spared

theorem file_iff (h : root.Spared root' place) (bytes : List UInt8) :
    root'.get? place = some (.file bytes) ↔ root.get? place = some (.file bytes) := by
  rw [← map_bare_eq_file_iff]
  rcases h with h | ⟨hnone, h⟩
  · rw [h, map_bare_eq_file_iff]
  · simp [h, hnone]

theorem link_iff (h : root.Spared root' place) (target : String) :
    root'.get? place = some (.link target) ↔ root.get? place = some (.link target) := by
  rw [← map_bare_eq_link_iff]
  rcases h with h | ⟨hnone, h⟩
  · rw [h, map_bare_eq_link_iff]
  · simp [h, hnone]

theorem exists_alike (h : root.Spared root' place) (hnode : root.get? place = some node) :
    ∃ node', root'.get? place = some node' ∧ node.Alike node' := by
  rcases h with h | ⟨hnone, _⟩
  · rw [hnode, Option.map_some, Option.map_eq_some_iff] at h
    obtain ⟨node', hnode', hbare⟩ := h
    exact ⟨node', hnode', .of_bare hbare⟩
  · simp [hnone] at hnode

end Spared

/-! ## Places where nothing is -/

theorem get?_concat_of_lookup (hget : root.get? above = some (.directory es))
    (hlookup : es.lookup name = none) : root.get? (above ++ [name]) = none := by
  simp [get?_concat, hget, child?, entries, hlookup]

theorem Vacant.of_none (hget : root.get? above = some (.directory es))
    (hnone : root.get? (above ++ [name]) = none) : root.Vacant (above ++ [name]) := by
  refine ⟨fun _ => ⟨es, by simpa using hget⟩, fun old hold => ?_⟩
  simp [hnone] at hold

theorem Vacant.of_file {bytes : List UInt8} (hget : root.get? place = some (.file bytes)) :
    root.Vacant place := by
  refine ⟨fun hne => ?_, fun old hold => ?_⟩
  · obtain ⟨node, hnode, hdirectory⟩ := isDirectory_dropLast hget hne
    obtain ⟨es, rfl⟩ := DiskNode.exists_entries hdirectory
    exact ⟨es, hnode⟩
  · rw [hget, Option.some.injEq] at hold
    rw [← hold]
    rfl

end DiskNode

namespace FileSystem

open DiskNode

variable {fs fs' mid : FileSystem} {followLast : Bool} {path name : String}
  {above spot : List String} {bytes : List UInt8}

/-! ## Making directories -/

/-- The second file system has some directories that the first one has not, and nothing else is
different. -/
structure Extends (fs fs' : FileSystem) : Prop where
  workingDirectory : fs'.workingDirectory = fs.workingDirectory
  refuses : fs'.refuses = fs.refuses
  spared : ∀ place, fs.root.Spared fs'.root place
  proper : fs.root.Proper → fs'.root.Proper

namespace Extends

theorem refl (fs : FileSystem) : fs.Extends fs := ⟨rfl, rfl, .refl fs.root, id⟩

theorem trans (h : fs.Extends mid) (h' : mid.Extends fs') : fs.Extends fs' where
  workingDirectory := h'.workingDirectory.trans h.workingDirectory
  refuses := h'.refuses.trans h.refuses
  spared place := (h.spared place).trans (h'.spared place)
  proper hp := h'.proper (h.proper hp)

theorem keeps (h : fs.Extends fs') : fs.Keeps fs' where
  root :=
    { kept := fun place _ hnode => (h.spared place).exists_alike hnode
      links := fun place target => ((h.spared place).link_iff target).mp }
  workingDirectory := h.workingDirectory
  refuses := h.refuses

end Extends

theorem locate_absent (h : fs.locate followLast path = .ok (.absent above name)) :
    (∃ es, fs.root.get? above = some (.directory es)) ∧
      fs.root.get? (above ++ [name]) = none ∧ ProperName name := by
  have hslash : ∀ piece ∈ PathText.pieces path, '/' ∉ piece.toList :=
    fun piece => PathText.no_slash_of_mem_pieces
  obtain ⟨⟨es, hget, hlookup⟩, hname⟩ := locateFrom_absent hslash (locatePieces_of_locate h)
  exact ⟨⟨es, hget⟩, get?_concat_of_lookup hget hlookup, hname⟩

theorem proper_put_absent {node : DiskNode} (hp : fs.root.Proper) (hnode : node.Proper)
    (h : fs.locate followLast path = .ok (.absent above name)) :
    (fs.put (above ++ [name]) node).root.Proper := by
  obtain ⟨⟨es, hget⟩, hnone, hname⟩ := locate_absent h
  refine hp.set (.of_none hget hnone) ?_ hnode
  rw [List.forall_mem_append]
  exact ⟨(hp.of_get? hget).1, by simpa using hname⟩

theorem makeDirectory_cases (h : fs.makeDirectory path = .ok fs') :
    ∃ above name, fs.locate false path = .ok (.absent above name) ∧
      fs' = fs.put (above ++ [name]) (.directory []) := by
  obtain ⟨location, hlocate, hmade⟩ := bind_eq_ok_iff.mp h
  cases location with
  | found place => simp at hmade
  | absent above name =>
    obtain ⟨_, _, hput⟩ := bind_eq_ok_iff.mp hmade
    exact ⟨above, name, hlocate, (pure_eq_ok_iff.mp hput).symm⟩

theorem makeDirectory_extends (h : fs.makeDirectory path = .ok fs') : fs.Extends fs' := by
  obtain ⟨above, name, hlocate, rfl⟩ := makeDirectory_cases h
  obtain ⟨⟨es, hget⟩, hnone, _⟩ := locate_absent hlocate
  refine ⟨rfl, rfl, fun place => ?_, fun hp => ?_⟩
  · by_cases hplace : place = above ++ [name]
    · rw [hplace]
      exact .inr ⟨hnone, by simp [put, bare]⟩
    · exact .inl (bare_get?_set (.of_none hget hnone) rfl hplace)
  · exact proper_put_absent hp (.directory (by simp) (by simp) (by simp)) hlocate

theorem locate_follow (h : fs.locate false path = .ok (.absent above name)) :
    fs.locate true path = .ok (.absent above name) := by
  obtain ⟨_, hcheck, hpieces⟩ := bind_eq_ok_iff.mp h
  refine bind_eq_ok_iff.mpr ⟨_, hcheck, mapError_eq_ok_iff.mpr ?_⟩
  exact locateFrom_follow (mapError_eq_ok_iff.mp hpieces)

theorem resolve_of_locate (h : fs.locate true path = .ok (.found spot)) :
    fs.resolve path = .ok spot := by
  rw [resolve, h]
  rfl

theorem Keeps.resolve_absent (h : fs.Keeps fs')
    (hlocate : fs.locate true path = .ok (.absent above name))
    (hthere : (fs'.root.get? (above ++ [name])).isSome) :
    fs'.resolve path = .ok (above ++ [name]) := by
  have hfound := h.locate hlocate
  rw [Location.update, if_pos hthere] at hfound
  exact resolve_of_locate hfound

theorem isDirectory_iff :
    fs.isDirectory path = true ↔
      ∃ place es, fs.resolve path = .ok place ∧ fs.root.get? place = some (.directory es) := by
  rw [isDirectory, node?]
  cases fs.resolve path with
  | error e => simp
  | ok place =>
    cases hget : fs.root.get? place with
    | none => simp [hget]
    | some node => cases node <;> simp [hget, DiskNode.isDirectory]

theorem Keeps.isDirectory (h : fs.Keeps fs') (hpath : fs.isDirectory path = true) :
    fs'.isDirectory path = true := by
  obtain ⟨place, es, hresolve, hget⟩ := isDirectory_iff.mp hpath
  obtain ⟨es', hget'⟩ := h.root.directory hget
  exact isDirectory_iff.mpr ⟨place, es', h.resolve hresolve, hget'⟩

theorem isDirectory_of_makeDirectory (h : fs.makeDirectory path = .ok fs') :
    fs'.isDirectory path = true := by
  have hkeeps := (makeDirectory_extends h).keeps
  obtain ⟨above, name, hlocate, rfl⟩ := makeDirectory_cases h
  have hput : (fs.put (above ++ [name]) (.directory [])).root.get? (above ++ [name]) =
      some (.directory []) := get?_set_self
  refine isDirectory_iff.mpr ⟨_, [], hkeeps.resolve_absent (locate_follow hlocate) ?_, hput⟩
  simp [hput]

theorem ensureDirectory_ok (h : fs.ensureDirectory path = .ok fs') :
    fs.Extends fs' ∧ fs'.isDirectory path = true := by
  rw [ensureDirectory] at h
  split at h
  next e hmake =>
    split at h
    next hthere =>
      cases h
      exact ⟨.refl fs, hthere⟩
    next => simp at h
  next made => exact ⟨makeDirectory_extends h, isDirectory_of_makeDirectory h⟩

theorem ensureDirectory_of_isDirectory (h : fs.isDirectory path = true) :
    fs.ensureDirectory path = .ok fs := by
  rw [ensureDirectory]
  split
  next => rw [if_pos h]
  next made =>
    cases hmake : fs.makeDirectory path with
    | error e => exact absurd hmake (made e)
    | ok fs' =>
      obtain ⟨above, name, hlocate, _⟩ := makeDirectory_cases hmake
      obtain ⟨place, es, hresolve, _⟩ := isDirectory_iff.mp h
      have hfound := locate_of_resolve hresolve
      rw [locate_follow hlocate] at hfound
      simp at hfound

/-- Whether it succeeds or not, the making of directories makes nothing but directories. -/
theorem ensureDirectories_extends (fuel : Nat) (fs : FileSystem) (path : String) :
    fs.Extends (ensureDirectories fuel fs path).1 := by
  fun_induction ensureDirectories fuel fs path with
  | case1 fs path => exact .refl fs
  | case2 fuel fs path hempty => exact .refl fs
  | case3 fuel fs path hempty made hmade => exact (ensureDirectory_ok hmade).1
  | case4 fuel fs path hempty cause hcause parent hfirst hparent above cause' habove ih =>
    rw [habove] at ih
    exact ih
  | case5 fuel fs path hempty cause hcause parent hfirst hparent above habove made hmade ih =>
    rw [habove] at ih
    exact ih.trans (ensureDirectory_ok hmade).1
  | case6 fuel fs path hempty cause hcause parent hfirst hparent above habove cause' hcause' ih =>
    rw [habove] at ih
    exact ih
  | case7 => exact .refl _

theorem ensureDirectories_ok {fuel : Nat}
    (h : ensureDirectories (fuel + 1) fs path = (fs', .ok ())) :
    path = "" ∨ fs'.isDirectory path = true := by
  rw [ensureDirectories] at h
  split at h
  next hempty => exact .inl (beq_iff_eq.mp hempty)
  next =>
    split at h
    next made hmade =>
      cases h
      exact .inr (ensureDirectory_ok hmade).2
    next cause hcause =>
      split at h
      next parent hfirst hparent =>
        split at h
        next => simp at h
        next above habove =>
          split at h
          next made hmade =>
            cases h
            exact .inr (ensureDirectory_ok hmade).2
          next => simp at h
      next => simp at h

theorem ensureDirectories_of_isDirectory (fuel : Nat)
    (h : path = "" ∨ fs.isDirectory path = true) :
    ensureDirectories fuel fs path = (fs, .ok ()) := by
  cases fuel with
  | zero => rfl
  | succ fuel =>
    rw [ensureDirectories]
    by_cases hempty : path = ""
    · simp [hempty]
    · simp [hempty, ensureDirectory_of_isDirectory (h.resolve_left hempty)]

theorem ensureParents_extends (fs : FileSystem) (path : String) :
    fs.Extends (fs.ensureParents path).1 := by
  rw [ensureParents]
  split
  next => exact .refl fs
  next parent hparent => exact ensureDirectories_extends _ fs parent

theorem ensureParents_again (h : fs.ensureParents path = (mid, .ok ())) (hkeeps : mid.Keeps fs') :
    fs'.ensureParents path = (fs', .ok ()) := by
  rw [ensureParents] at h ⊢
  split at h
  next => rfl
  next parent hparent =>
    obtain ⟨fuel, hfuel⟩ := Nat.exists_eq_succ_of_ne_zero
      (mt List.length_eq_zero_iff.mp (PathText.pieces_ne_nil path))
    rw [hfuel] at h
    exact ensureDirectories_of_isDirectory _ ((ensureDirectories_ok h).imp_right hkeeps.isDirectory)

/-! ## Writing a file -/

def EndsInName (path : String) : Prop :=
  ["", ".", ".."].contains ((PathText.pieces path).getLast?.getD "") = false

instance (path : String) : Decidable (EndsInName path) :=
  inferInstanceAs (Decidable (_ = false))

theorem write_eq_ok_iff :
    fs.write path bytes = .ok fs' ↔
      EndsInName path ∧ ∃ location, fs.locate true path = .ok location ∧
        (fs.root.get? location.place).any (·.isDirectory) = false ∧
        fs.refuses .write location.place = none ∧ fs' = fs.put location.place (.file bytes) := by
  have hcheck : ∀ location, fs.locate true path = .ok location → checkPath path = .ok () := by
    intro location hlocate
    obtain ⟨_, hcheck, _⟩ := bind_eq_ok_iff.mp hlocate
    exact hcheck
  rw [write, EndsInName]
  cases hends : ["", ".", ".."].contains ((PathText.pieces path).getLast?.getD "") with
  | true =>
    simp only [if_true, bind_eq_ok_iff]
    simp
  | false =>
    simp only [Bool.false_eq_true, if_false, true_and, bind_eq_ok_iff]
    constructor
    · rintro ⟨_, _, location, hlocate, hwritten⟩
      refine ⟨location, hlocate, ?_⟩
      cases hdirectory : (fs.root.get? location.place).any (·.isDirectory) with
      | true => simp [hdirectory, bind, Except.bind] at hwritten
      | false =>
        simp only [hdirectory, Bool.false_eq_true, if_false, bind_eq_ok_iff, allow_eq_ok_iff,
          pure_eq_ok_iff, exists_const] at hwritten
        exact ⟨rfl, hwritten.1, hwritten.2.symm⟩
    · rintro ⟨location, hlocate, hdirectory, hgranted, rfl⟩
      refine ⟨(), hcheck location hlocate, location, hlocate, ?_⟩
      simp only [hdirectory, Bool.false_eq_true, if_false, bind_eq_ok_iff, allow_eq_ok_iff,
        hgranted, pure_eq_ok_iff, exists_const, and_self]

/-- The second file system has a file of these bytes at the spot, where the first one had another or
nothing, and may have some directories that the first one has not. -/
structure Placed (fs fs' : FileSystem) (spot : List String) (bytes : List UInt8) : Prop where
  workingDirectory : fs'.workingDirectory = fs.workingDirectory
  refuses : fs'.refuses = fs.refuses
  there : fs'.root.get? spot = some (.file bytes)
  before : ∀ node, fs.root.get? spot = some node → node.isFile = true
  elsewhere : ∀ place, place ≠ spot → fs.root.Spared fs'.root place
  proper : fs.root.Proper → fs'.root.Proper

theorem Alike.of_isFile {node : DiskNode} (h : node.isFile = true) : node.Alike (.file bytes) := by
  cases node with
  | file => exact .file
  | link => simp [DiskNode.isFile] at h
  | directory => simp [DiskNode.isFile] at h

theorem Placed.keeps (h : fs.Placed fs' spot bytes) : fs.Keeps fs' where
  workingDirectory := h.workingDirectory
  refuses := h.refuses
  root :=
    { kept := by
        intro place node hnode
        by_cases hplace : place = spot
        · subst hplace
          exact ⟨_, h.there, Alike.of_isFile (h.before node hnode)⟩
        · exact (h.elsewhere place hplace).exists_alike hnode
      links := by
        intro place target hlink
        by_cases hplace : place = spot
        · subst hplace
          simp [h.there] at hlink
        · exact ((h.elsewhere place hplace).link_iff target).mp hlink }

theorem Extends.placed (h : fs.Extends mid) (h' : mid.Placed fs' spot bytes) :
    fs.Placed fs' spot bytes where
  workingDirectory := h'.workingDirectory.trans h.workingDirectory
  refuses := h'.refuses.trans h.refuses
  there := h'.there
  before node hnode := by
    obtain ⟨node', hnode', halike⟩ := (h.spared spot).exists_alike hnode
    rw [← halike.isFile_eq]
    exact h'.before node' hnode'
  elsewhere place hplace := (h.spared place).trans (h'.elsewhere place hplace)
  proper hp := h'.proper (h.proper hp)

theorem placed_put (hvacant : fs.root.Vacant spot)
    (hbefore : ∀ node, fs.root.get? spot = some node → node.isFile = true)
    (hproper : fs.root.Proper → ∀ name ∈ spot, ProperName name) :
    fs.Placed (fs.put spot (.file bytes)) spot bytes where
  workingDirectory := rfl
  refuses := rfl
  there := get?_set_self
  before := hbefore
  elsewhere _ hplace := .inl (bare_get?_set hvacant rfl hplace)
  proper hp := hp.set hvacant (hproper hp) .file

theorem placed_absent (h : fs.locate followLast path = .ok (.absent above name)) :
    fs.Placed (fs.put (above ++ [name]) (.file bytes)) (above ++ [name]) bytes := by
  obtain ⟨⟨es, hget⟩, hnone, hname⟩ := locate_absent h
  refine placed_put (.of_none hget hnone) (fun node hnode => ?_) fun hp => ?_
  · simp [hnone] at hnode
  · rw [List.forall_mem_append]
    exact ⟨(hp.of_get? hget).1, by simpa using hname⟩

theorem placed_found (h : fs.locate true path = .ok (.found spot))
    (hfile : ∀ es, fs.root.get? spot ≠ some (.directory es)) :
    fs.Placed (fs.put spot (.file bytes)) spot bytes := by
  obtain ⟨node, hnode, hlink⟩ :=
    locateFrom_found_not_link (PathText.pieces_ne_nil path) (locatePieces_of_locate h)
  cases node with
  | link => simp [isLink] at hlink
  | directory es => exact absurd hnode (hfile es)
  | file old =>
    refine placed_put (.of_file hnode) (fun node hnode' => ?_) fun hp => (hp.of_get? hnode).1
    rw [hnode, Option.some.injEq] at hnode'
    rw [← hnode']
    rfl

/-- The second file system is the first one after the path's file has been written, with the
directories on the way to it. -/
structure Written (fs fs' : FileSystem) (path : String) (spot : List String) (bytes : List UInt8) :
    Prop extends fs.Placed fs' spot bytes where
  resolve : fs'.resolve path = .ok spot
  granted : fs'.refuses .write spot = none

theorem Written.node? (h : fs.Written fs' path spot bytes) :
    fs'.node? path = some (.file bytes) := by
  rw [FileSystem.node?, h.resolve]
  exact h.there

theorem written_of_write (h : fs.write path bytes = .ok fs') :
    ∃ spot, fs.Written fs' path spot bytes := by
  obtain ⟨_, location, hlocate, hfile, hgranted, rfl⟩ := write_eq_ok_iff.mp h
  cases location with
  | absent above name =>
    have hplaced : fs.Placed (fs.put (above ++ [name]) (.file bytes)) (above ++ [name]) bytes :=
      placed_absent hlocate
    exact ⟨_, hplaced, hplaced.keeps.resolve_absent hlocate (by simp [hplaced.there]), hgranted⟩
  | found place =>
    have hplaced : fs.Placed (fs.put place (.file bytes)) place bytes := by
      refine placed_found hlocate fun es hes => ?_
      simp [Location.place, hes, DiskNode.isDirectory] at hfile
    exact ⟨_, hplaced, hplaced.keeps.resolve (resolve_of_locate hlocate), hgranted⟩

theorem write_again {bytes' : List UInt8} (hends : EndsInName path)
    (h : fs.Written fs' path spot bytes) :
    fs'.write path bytes' = .ok (fs'.put spot (.file bytes')) := by
  refine write_eq_ok_iff.mpr ⟨hends, .found spot, locate_of_resolve h.resolve, ?_, h.granted, rfl⟩
  simp [Location.place, h.there, DiskNode.isDirectory]

end FileSystem

namespace Document

open FileSystem

variable {fs fs' : FileSystem} {path document : String}

theorem writeTo_ok (h : writeTo fs path document = (fs', .ok ())) :
    ∃ mid, fs.ensureParents path = (mid, .ok ()) ∧
      mid.write path (Utf8.encode document.toList) = .ok fs' := by
  rw [writeTo] at h
  split at h
  next => simp at h
  next mid hensure =>
    split at h
    next => simp at h
    next written hwrite =>
      cases h
      exact ⟨mid, hensure, hwrite⟩

theorem written_of_writeTo (h : writeTo fs path document = (fs', .ok ())) :
    ∃ spot, fs.Written fs' path spot (Utf8.encode document.toList) := by
  obtain ⟨mid, hensure, hwrite⟩ := writeTo_ok h
  obtain ⟨spot, hwritten⟩ := written_of_write hwrite
  have hextends : fs.Extends mid := by
    have hparents := ensureParents_extends fs path
    simpa [hensure] using hparents
  exact ⟨spot, hextends.placed hwritten.toPlaced, hwritten.resolve, hwritten.granted⟩

theorem writeTo_again {spot : List String} (h : writeTo fs path document = (fs', .ok ()))
    (hwritten : fs.Written fs' path spot (Utf8.encode document.toList)) (document' : String) :
    writeTo fs' path document' =
      (fs'.put spot (.file (Utf8.encode document'.toList)), .ok ()) := by
  obtain ⟨mid, hensure, hwrite⟩ := writeTo_ok h
  obtain ⟨_, hmid⟩ := written_of_write hwrite
  rw [writeTo, ensureParents_again hensure hmid.keeps]
  dsimp only
  rw [write_again (write_eq_ok_iff.mp hwrite).1 hwritten]

end Document

end SourceBundle
