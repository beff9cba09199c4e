import SourceBundle.Proofs.PlacedNodes

/-!
# Paths in a tree that has grown

Where a tree has all that another one has, and no link besides, a path that led somewhere leads to
the same place, and a path to where nothing was leads to what has been put there.
-/

namespace SourceBundle

namespace DiskNode

inductive Alike : DiskNode → DiskNode → Prop
  | file {bytes bytes'} : Alike (.file bytes) (.file bytes')
  | link {target} : Alike (.link target) (.link target)
  | directory {es es'} : Alike (.directory es) (.directory es')

theorem Alike.isFile_eq {node node' : DiskNode} (h : node.Alike node') :
    node'.isFile = node.isFile := by
  cases h <;> rfl

theorem Alike.isDirectory_eq {node node' : DiskNode} (h : node.Alike node') :
    node'.isDirectory = node.isDirectory := by
  cases h <;> rfl

def isLink : DiskNode → Bool
  | .link _ => true
  | _ => false

structure Keeps (root root' : DiskNode) : Prop where
  kept : ∀ place node, root.get? place = some node →
    ∃ node', root'.get? place = some node' ∧ node.Alike node'
  links : ∀ place target, root'.get? place = some (.link target) →
    root.get? place = some (.link target)

namespace Keeps

variable {root root' : DiskNode} {place : List String} {name : String}
  {es : List (String × DiskNode)}

theorem directory (h : root.Keeps root') (hget : root.get? place = some (.directory es)) :
    ∃ es', root'.get? place = some (.directory es') := by
  obtain ⟨node', hnode', halike⟩ := h.kept place _ hget
  cases halike
  exact ⟨_, hnode'⟩

theorem entry {node : DiskNode} {es' : List (String × DiskNode)} (h : root.Keeps root')
    (hget : root.get? place = some (.directory es))
    (hget' : root'.get? place = some (.directory es')) (hlookup : es.lookup name = some node) :
    ∃ node', es'.lookup name = some node' ∧ node.Alike node' := by
  have hnode : root.get? (place ++ [name]) = some node := by
    simp [get?_concat, hget, child?, entries, hlookup]
  obtain ⟨node', hnode', halike⟩ := h.kept _ _ hnode
  exact ⟨node', by simpa [get?_concat, hget', child?, entries] using hnode', halike⟩

end Keeps

end DiskNode

def Location.update (root : DiskNode) : Location → Location
  | .found place => .found place
  | .absent above name =>
    if (root.get? (above ++ [name])).isSome then .found (above ++ [name]) else .absent above name

namespace FileSystem

open DiskNode

variable {fs fs' : FileSystem} {followLast : Bool} {links : Nat}
  {place names above : List String} {name : String} {location : Location}

/-! ## Where following ends -/

/-- What is so of every place that is arrived at from a start that is left and gone on from, is so
of the place that a path leads to. -/
theorem locateFrom_induction (Start : List String → List String → Prop) (End : Location → Prop)
    (arrived : ∀ place names location, Start place names →
      hop fs followLast place names = .ok (.arrived location) → End location)
    (through : ∀ place names above target rest, Start place names →
      hop fs followLast place names = .ok (.throughLink above target rest) →
      Start (if PathText.isAbsolute target then [] else above) (PathText.pieces target ++ rest))
    (hstart : Start place names)
    (h : locateFrom fs followLast links place names = .ok location) : End location := by
  induction links generalizing place names with
  | zero =>
    rcases locateFrom_cases h with hhop | ⟨_, _, _, _, _, hlinks, _⟩
    · exact arrived _ _ _ hstart hhop
    · simp at hlinks
  | succ links ih =>
    rcases locateFrom_cases h with hhop | ⟨above, target, rest, fewer, hhop, hlinks, hrest⟩
    · exact arrived _ _ _ hstart hhop
    · cases hlinks
      exact ih (through _ _ _ _ _ hstart hhop) hrest

theorem hop_rest {target : String} {rest : List String}
    (h : hop fs followLast place names = .ok (.throughLink above target rest)) :
    ∀ piece ∈ rest, piece ∈ names := by
  fun_induction hop fs followLast place names with
  | case3 place name rest es hget hbarred htrivial ih =>
    exact fun piece hpiece => List.mem_cons_of_mem name (ih h piece hpiece)
  | case4 place name rest es hget hbarred htrivial hdots ih =>
    exact fun piece hpiece => List.mem_cons_of_mem name (ih h piece hpiece)
  | case9 place name rest es hget hbarred htrivial hdots hsize target hlookup hlast =>
    cases h
    exact fun piece hpiece => List.mem_cons_of_mem name hpiece
  | case10 place name rest es hget hbarred htrivial hdots hsize node hlink hlookup ih =>
    exact fun piece hpiece => List.mem_cons_of_mem name (ih h piece hpiece)
  | _ => simp at h

theorem hop_absent (hslash : ∀ piece ∈ names, '/' ∉ piece.toList)
    (h : hop fs followLast place names = .ok (.arrived (.absent above name))) :
    (∃ es, fs.root.get? above = some (.directory es) ∧ es.lookup name = none) ∧ ProperName name := by
  fun_induction hop fs followLast place names with
  | case3 place first rest es hget hbarred htrivial ih => exact ih (List.forall_mem_cons.mp hslash).2 h
  | case4 place first rest es hget hbarred htrivial hdots ih =>
    exact ih (List.forall_mem_cons.mp hslash).2 h
  | case6 place first rest es hget hbarred htrivial hdots hsize hlookup hrest =>
    cases h
    have hname : ProperName name := by
      simp only [PathText.isTrivial, Bool.or_eq_true, beq_iff_eq, not_or] at htrivial hdots
      exact ⟨htrivial.1, hslash name List.mem_cons_self, htrivial.2, hdots⟩
    exact ⟨⟨es, hget, hlookup⟩, hname⟩
  | case10 place first rest es hget hbarred htrivial hdots hsize node hlink hlookup ih =>
    exact ih (List.forall_mem_cons.mp hslash).2 h
  | _ => simp at h

theorem locateFrom_absent (hslash : ∀ piece ∈ names, '/' ∉ piece.toList)
    (h : locateFrom fs followLast links place names = .ok (.absent above name)) :
    (∃ es, fs.root.get? above = some (.directory es) ∧ es.lookup name = none) ∧ ProperName name := by
  refine locateFrom_induction (fun _ names => ∀ piece ∈ names, '/' ∉ piece.toList)
    (fun location => ∀ above name, location = .absent above name →
      (∃ es, fs.root.get? above = some (.directory es) ∧ es.lookup name = none) ∧ ProperName name)
    ?_ ?_ hslash h above name rfl
  · rintro place names location hstart hhop above name rfl
    exact hop_absent hstart hhop
  · intro place names above target rest hstart hhop
    refine List.forall_mem_append.mpr ⟨fun piece => PathText.no_slash_of_mem_pieces, ?_⟩
    exact fun piece hpiece => hstart piece (hop_rest hhop piece hpiece)

theorem hop_found (hne : names ≠ []) {found : List String}
    (h : hop fs true place names = .ok (.arrived (.found found))) :
    ∃ node, fs.root.get? found = some node ∧ node.isLink = false := by
  have hfrom : ∀ place names, (∃ node, fs.root.get? place = some node ∧ node.isLink = false) →
      hop fs true place names = .ok (.arrived (.found found)) →
      ∃ node, fs.root.get? found = some node ∧ node.isLink = false := by
    intro place names hplace h
    fun_induction hop fs true place names with
    | case1 place =>
      cases h
      exact hplace
    | case3 place name rest es hget hbarred htrivial ih => exact ih hplace h
    | case4 place name rest es hget hbarred htrivial hdots ih =>
      refine ih ?_ h
      by_cases hempty : place = []
      · simpa [hempty] using hplace
      · obtain ⟨node, hnode, hdirectory⟩ := isDirectory_dropLast hget hempty
        obtain ⟨es', rfl⟩ := exists_entries hdirectory
        exact ⟨_, hnode, rfl⟩
    | case8 place name rest es hget hbarred htrivial hdots hsize target hlookup hlast => simp at hlast
    | case10 place name rest es hget hbarred htrivial hdots hsize node hlink hlookup ih =>
      refine ih ⟨node, ?_, ?_⟩ h
      · simp [get?_concat, hget, child?, entries, hlookup]
      · cases node with
        | link target => exact absurd rfl (hlink target)
        | file => rfl
        | directory => rfl
    | _ => simp at h
  refine hfrom place names ?_ h
  obtain ⟨first, rest, rfl⟩ := List.exists_cons_of_ne_nil hne
  rw [hop] at h
  split at h
  next es hget => exact ⟨_, hget, rfl⟩
  next => simp at h

theorem locateFrom_found_not_link (hne : names ≠ []) {found : List String}
    (h : locateFrom fs true links place names = .ok (.found found)) :
    ∃ node, fs.root.get? found = some node ∧ node.isLink = false := by
  refine locateFrom_induction (fun _ names => names ≠ [])
    (fun location => ∀ found, location = .found found →
      ∃ node, fs.root.get? found = some node ∧ node.isLink = false)
    ?_ ?_ hne h found rfl
  · rintro place names location hstart hhop found rfl
    exact hop_found hstart hhop
  · intro place names above target rest _ _
    simp [PathText.pieces_ne_nil]

theorem cases_of_resolve {path : String} {found : List String} (h : fs.resolve path = .ok found) :
    (fs.isDirectory path = true ∧ fs.isFile path = false ∧ fs.DirectoryAt found) ∨
      fs.isFile path = true ∧ ∃ bytes, fs.root.get? found = some (.file bytes) := by
  have hfollowed := locatePieces_of_locate (locate_of_resolve h)
  obtain ⟨node, hget, hlink⟩ := locateFrom_found_not_link (PathText.pieces_ne_nil path) hfollowed
  have hnode : fs.node? path = some node := by
    rw [node?, h]
    exact hget
  cases node with
  | directory es =>
    exact .inl ⟨by simp [isDirectory, hnode, DiskNode.isDirectory],
      by simp [isFile, hnode, DiskNode.isFile], es, hget⟩
  | file bytes => exact .inr ⟨by simp [isFile, hnode, DiskNode.isFile], bytes, hget⟩
  | link target => simp [isLink] at hlink

theorem hop_follow {r : Hop} (h : hop fs false place names = .ok r)
    (hr : ∀ found, r ≠ .arrived (.found found)) : hop fs true place names = .ok r := by
  fun_induction hop fs false place names with
  | case1 place =>
    cases h
    exact absurd rfl (hr place)
  | case3 place name rest es hget hbarred htrivial ih => simpa [hop, hget, hbarred, htrivial] using ih h
  | case4 place name rest es hget hbarred htrivial hdots ih =>
    simpa [hop, hget, hbarred, htrivial, hdots] using ih h
  | case6 place name rest es hget hbarred htrivial hdots hsize hlookup hrest =>
    simpa [hop, hget, hbarred, htrivial, hdots, hsize, hlookup, hrest] using h
  | case8 place name rest es hget hbarred htrivial hdots hsize target hlookup hlast =>
    cases h
    exact absurd rfl (hr _)
  | case9 place name rest es hget hbarred htrivial hdots hsize target hlookup hlast =>
    simpa [hop, hget, hbarred, htrivial, hdots, hsize, hlookup] using h
  | case10 place name rest es hget hbarred htrivial hdots hsize node hlink hlookup ih =>
    have hih := ih h
    cases node with
    | link target => exact absurd rfl (hlink target)
    | file => simpa [hop, hget, hbarred, htrivial, hdots, hsize, hlookup] using hih
    | directory => simpa [hop, hget, hbarred, htrivial, hdots, hsize, hlookup] using hih
  | _ => simp at h

theorem locateFrom_follow
    (h : locateFrom fs false links place names = .ok (.absent above name)) :
    locateFrom fs true links place names = .ok (.absent above name) := by
  induction links generalizing place names with
  | zero =>
    rcases locateFrom_cases h with hhop | ⟨_, _, _, _, _, hlinks, _⟩
    · rw [locateFrom, hop_follow hhop (by simp)]
      rfl
    · simp at hlinks
  | succ links ih =>
    rcases locateFrom_cases h with hhop | ⟨above, target, rest, fewer, hhop, hlinks, hrest⟩
    · rw [locateFrom, hop_follow hhop (by simp)]
      rfl
    · cases hlinks
      rw [locateFrom, hop_follow hhop (by simp)]
      exact ih hrest

/-! ## Paths that lead on as before -/

def Hop.update (root : DiskNode) : Hop → Hop
  | .arrived location => .arrived (location.update root)
  | .throughLink place target rest => .throughLink place target rest

/-- The second file system has what the first one has, but for the contents of files, and no other
link. -/
structure Keeps (fs fs' : FileSystem) : Prop where
  root : fs.root.Keeps fs'.root
  workingDirectory : fs'.workingDirectory = fs.workingDirectory
  refuses : fs'.refuses = fs.refuses

namespace Keeps

variable {path : String} {found : List String}

theorem barred_eq (h : fs.Keeps fs') : fs'.barred place name = fs.barred place name := by
  rw [barred, barred, h.refuses]

theorem hop (h : fs.Keeps fs') {r : Hop} (hhop : fs.hop followLast place names = .ok r) :
    fs'.hop followLast place names = .ok (r.update fs'.root) := by
  fun_induction FileSystem.hop fs followLast place names with
  | case1 place =>
    cases hhop
    rfl
  | case3 place name rest es hget hbarred htrivial ih =>
    obtain ⟨es', hget'⟩ := h.root.directory hget
    simpa [FileSystem.hop, hget', h.barred_eq, hbarred, htrivial] using ih hhop
  | case4 place name rest es hget hbarred htrivial hdots ih =>
    obtain ⟨es', hget'⟩ := h.root.directory hget
    simpa [FileSystem.hop, hget', h.barred_eq, hbarred, htrivial, hdots] using ih hhop
  | case6 place name rest es hget hbarred htrivial hdots hsize hlookup hrest =>
    cases hhop
    obtain ⟨es', hget'⟩ := h.root.directory hget
    have hchild : fs'.root.get? (place ++ [name]) = es'.lookup name := by
      simp [get?_concat, hget', child?, entries]
    have hnone : fs.root.get? (place ++ [name]) = none := by
      simp [get?_concat, hget, child?, entries, hlookup]
    have hempty : rest = [] := List.isEmpty_iff.mp hrest
    have hbarred' : fs'.barred place name = none := h.barred_eq.trans hbarred
    rw [FileSystem.hop, hget', Hop.update, Location.update, hchild]
    cases hlookup' : es'.lookup name with
    | none => simp [hbarred', htrivial, hdots, hsize, hlookup', hempty]
    | some node =>
      cases node with
      | link target =>
        have habsurd := h.root.links _ _ (hchild.trans hlookup')
        simp [hnone] at habsurd
      | file => simp [hbarred', htrivial, hdots, hsize, hlookup', hempty, FileSystem.hop]
      | directory => simp [hbarred', htrivial, hdots, hsize, hlookup', hempty, FileSystem.hop]
  | case8 place name rest es hget hbarred htrivial hdots hsize target hlookup hlast =>
    cases hhop
    obtain ⟨es', hget'⟩ := h.root.directory hget
    obtain ⟨node', hlookup', halike⟩ := h.root.entry hget hget' hlookup
    cases halike
    simp [FileSystem.hop, hget', h.barred_eq, hbarred, htrivial, hdots, hsize, hlookup', hlast,
      Hop.update, Location.update]
  | case9 place name rest es hget hbarred htrivial hdots hsize target hlookup hlast =>
    cases hhop
    obtain ⟨es', hget'⟩ := h.root.directory hget
    obtain ⟨node', hlookup', halike⟩ := h.root.entry hget hget' hlookup
    cases halike
    simp [FileSystem.hop, hget', h.barred_eq, hbarred, htrivial, hdots, hsize, hlookup', hlast,
      Hop.update]
  | case10 place name rest es hget hbarred htrivial hdots hsize node hlink hlookup ih =>
    have hih := ih hhop
    obtain ⟨es', hget'⟩ := h.root.directory hget
    obtain ⟨node', hlookup', halike⟩ := h.root.entry hget hget' hlookup
    cases halike with
    | link => exact absurd rfl (hlink _)
    | file =>
      simpa [FileSystem.hop, hget', h.barred_eq, hbarred, htrivial, hdots, hsize, hlookup'] using hih
    | directory =>
      simpa [FileSystem.hop, hget', h.barred_eq, hbarred, htrivial, hdots, hsize, hlookup'] using hih
  | _ => simp at hhop

theorem locateFrom (h : fs.Keeps fs')
    (hlocate : fs.locateFrom followLast links place names = .ok location) :
    fs'.locateFrom followLast links place names = .ok (location.update fs'.root) := by
  induction links generalizing place names with
  | zero =>
    rcases locateFrom_cases hlocate with hhop | ⟨_, _, _, _, _, hlinks, _⟩
    · rw [FileSystem.locateFrom, h.hop hhop]
      rfl
    · simp at hlinks
  | succ links ih =>
    rcases locateFrom_cases hlocate with hhop | ⟨above, target, rest, fewer, hhop, hlinks, hrest⟩
    · rw [FileSystem.locateFrom, h.hop hhop]
      rfl
    · cases hlinks
      rw [FileSystem.locateFrom, h.hop hhop]
      exact ih hrest

theorem locate (h : fs.Keeps fs') (hlocate : fs.locate followLast path = .ok location) :
    fs'.locate followLast path = .ok (location.update fs'.root) := by
  obtain ⟨_, hcheck, hpieces⟩ := bind_eq_ok_iff.mp hlocate
  refine bind_eq_ok_iff.mpr ⟨_, hcheck, mapError_eq_ok_iff.mpr ?_⟩
  rw [locatePieces, h.workingDirectory]
  exact h.locateFrom (mapError_eq_ok_iff.mp hpieces)

theorem resolve (h : fs.Keeps fs') (hresolve : fs.resolve path = .ok found) :
    fs'.resolve path = .ok found := by
  have hlocate := h.locate (locate_of_resolve hresolve)
  rw [FileSystem.resolve, hlocate]
  rfl

theorem node? (h : fs.Keeps fs') {node : DiskNode} (hnode : fs.node? path = some node) :
    ∃ node', fs'.node? path = some node' ∧ node.Alike node' := by
  rw [FileSystem.node?] at hnode ⊢
  cases hresolve : fs.resolve path with
  | error e => simp [hresolve] at hnode
  | ok found =>
    rw [hresolve] at hnode
    rw [h.resolve hresolve]
    exact h.root.kept found node hnode

end Keeps

end FileSystem

end SourceBundle
