import SourceBundle.Proofs.DiskTree
import SourceBundle.Proofs.FallibleSteps

/-!
# Where paths lead

Following a path never leaves the tree: what it finds is there. The path of a place leads to that
place or nowhere. Trees that differ only in the order of their entries lead every path to the same
place.
-/

namespace SourceBundle

namespace FileSystem

open DiskNode

variable {fs fs' : FileSystem} {root : DiskNode} {followLast : Bool} {links : Nat}
  {place names : List String}

def DirectoryAt (fs : FileSystem) (place : List String) : Prop :=
  ∃ es, fs.root.get? place = some (.directory es)

/-! ## What is found is there -/

def Hop.reached : Hop → List String
  | .arrived (.found place) => place
  | .arrived (.absent above _) => above
  | .throughLink place _ _ => place

theorem isSome_get?_dropLast (h : (root.get? place).isSome) :
    (root.get? place.dropLast).isSome := by
  by_cases hplace : place = []
  · simpa [hplace] using h
  · obtain ⟨node, hnode⟩ := Option.isSome_iff_exists.mp h
    obtain ⟨above, habove, _⟩ := isDirectory_dropLast hnode hplace
    simp [habove]

theorem directoryAt_of_hop_cons {name : String} {h : Hop}
    (hhop : hop fs followLast place (name :: names) = .ok h) : fs.DirectoryAt place := by
  rw [hop] at hhop
  split at hhop
  next es hes => exact ⟨es, hes⟩
  next => simp at hhop

theorem hop_reached {h : Hop} (hhop : hop fs followLast place names = .ok h)
    (hplace : (fs.root.get? place).isSome) : (fs.root.get? h.reached).isSome := by
  fun_induction hop fs followLast place names with
  | case1 place =>
    rw [← Except.ok.inj hhop]
    exact hplace
  | case3 place name rest es hget hbarred htrivial ih => exact ih hhop hplace
  | case4 place name rest es hget hbarred htrivial hdots ih =>
    exact ih hhop (isSome_get?_dropLast hplace)
  | case6 place name rest es hget hbarred htrivial hdots hsize hlookup hrest =>
    rw [← Except.ok.inj hhop]
    exact hplace
  | case8 place name rest es hget hbarred htrivial hdots hsize target hlookup hlast =>
    rw [← Except.ok.inj hhop, Hop.reached, get?_concat, hget, Option.bind_some, child?, entries,
      hlookup]
    rfl
  | case9 place name rest es hget hbarred htrivial hdots hsize target hlookup hlast =>
    rw [← Except.ok.inj hhop]
    exact hplace
  | case10 place name rest es hget hbarred htrivial hdots hsize node hlink hlookup ih =>
    refine ih hhop ?_
    rw [get?_concat, hget, Option.bind_some, child?, entries, hlookup]
    rfl
  | _ => simp at hhop

/-- What was located was arrived at without a link, or behind the first link on the way. -/
theorem locateFrom_cases {location : Location}
    (h : locateFrom fs followLast links place names = .ok location) :
    hop fs followLast place names = .ok (.arrived location) ∨
      ∃ above target rest fewer,
        hop fs followLast place names = .ok (.throughLink above target rest) ∧
        links = fewer + 1 ∧
        locateFrom fs followLast fewer (if PathText.isAbsolute target then [] else above)
          (PathText.pieces target ++ rest) = .ok location := by
  rw [locateFrom.eq_def] at h
  dsimp only at h
  obtain ⟨r, hhop, hrest⟩ := bind_eq_ok_iff.mp h
  cases r with
  | arrived arrival =>
    cases hrest
    exact .inl hhop
  | throughLink above target rest =>
    cases links with
    | zero => simp at hrest
    | succ fewer => exact .inr ⟨above, target, rest, fewer, hhop, rfl, hrest⟩

theorem locateFrom_found {found : List String}
    (h : locateFrom fs followLast links place names = .ok (.found found))
    (hplace : (fs.root.get? place).isSome) : (fs.root.get? found).isSome := by
  induction links generalizing place names with
  | zero =>
    rcases locateFrom_cases h with hhop | ⟨_, _, _, _, _, hlinks, _⟩
    · exact hop_reached hhop hplace
    · simp at hlinks
  | succ links ih =>
    rcases locateFrom_cases h with hhop | ⟨above, target, rest, fewer, hhop, hlinks, hrest⟩
    · exact hop_reached hhop hplace
    · cases hlinks
      refine ih hrest ?_
      split
      · rfl
      · exact hop_reached hhop hplace

theorem locatePieces_of_locate {path : String} {location : Location}
    (h : fs.locate followLast path = .ok location) :
    fs.locatePieces followLast (PathText.isAbsolute path) (PathText.pieces path) = .ok location := by
  obtain ⟨_, _, hpieces⟩ := bind_eq_ok_iff.mp h
  exact mapError_eq_ok_iff.mp hpieces

theorem locate_of_resolve {path : String} {found : List String}
    (h : fs.resolve path = .ok found) : fs.locate true path = .ok (.found found) := by
  obtain ⟨location, hlocate, hfound⟩ := bind_eq_ok_iff.mp h
  cases location with
  | absent => simp at hfound
  | found there =>
    cases hfound
    exact hlocate

theorem directoryAt_of_locate {path : String} {location : Location}
    (h : fs.locate followLast path = .ok location) :
    fs.DirectoryAt (if PathText.isAbsolute path then [] else fs.workingDirectory) := by
  have hpieces := locatePieces_of_locate h
  obtain ⟨piece, pieces, hcons⟩ := List.exists_cons_of_ne_nil (PathText.pieces_ne_nil path)
  rw [locatePieces, hcons] at hpieces
  rcases locateFrom_cases hpieces with hhop | ⟨_, _, _, _, hhop, _⟩
  · exact directoryAt_of_hop_cons hhop
  · exact directoryAt_of_hop_cons hhop

theorem exists_of_resolve {path : String} {found : List String}
    (h : fs.resolve path = .ok found) : ∃ node, fs.root.get? found = some node := by
  have hlocate := locate_of_resolve h
  obtain ⟨es, hes⟩ := directoryAt_of_locate hlocate
  refine Option.isSome_iff_exists.mp (locateFrom_found (locatePieces_of_locate hlocate) ?_)
  rw [hes]
  rfl

theorem DirectoryAt.above (h : fs.DirectoryAt place) : fs.DirectoryAt [] := by
  obtain ⟨es, hes⟩ := h
  cases place with
  | nil => exact ⟨es, hes⟩
  | cons name names =>
    obtain ⟨child, hchild, _⟩ := Option.bind_eq_some_iff.mp hes
    obtain ⟨es, hroot⟩ := exists_entries (isDirectory_of_child? hchild)
    exact ⟨es, congrArg some hroot⟩

theorem allow_eq_ok_iff {request : Request} {u : Unit} :
    fs.allow request place = .ok u ↔ fs.refuses request place = none := by
  rw [allow]
  cases fs.refuses request place <;> simp

/-! ## The path of a place -/

/-- The system names the entries of the directory at the place. -/
def Listable (fs : FileSystem) (place : List String) : Prop :=
  ∃ es, fs.list (pathOf place) = .ok es

theorem exists_child_of_get? {root node : DiskNode} {name : String} {rest : List String}
    (hget : root.get? (place ++ name :: rest) = some node) :
    ∃ es child, root.get? place = some (.directory es) ∧ es.lookup name = some child ∧
      child.get? rest = some node := by
  rw [get?_append] at hget
  obtain ⟨here, hhere, hbelow⟩ := Option.bind_eq_some_iff.mp hget
  obtain ⟨child, hchild, hrest⟩ := Option.bind_eq_some_iff.mp hbelow
  obtain ⟨es, rfl⟩ := exists_entries (isDirectory_of_child? hchild)
  exact ⟨es, child, hhere, hchild, hrest⟩

theorem hop_names {node : DiskNode} {h : Hop} (hp : fs.root.Proper)
    (hget : fs.root.get? (place ++ names) = some node)
    (hnode : followLast = false ∨ ∀ target, node ≠ .link target)
    (hhop : hop fs followLast place names = .ok h) : h = .arrived (.found (place ++ names)) := by
  have hproper := (hp.of_get? hget).1
  fun_induction hop fs followLast place names with
  | case1 place => simpa using hhop.symm
  | case3 place name rest es hhere hbarred htrivial ih =>
    have hname := hproper name (by simp)
    simp [PathText.isTrivial, hname.nonempty, hname.no_dot] at htrivial
  | case4 place name rest es hhere hbarred htrivial hdots ih =>
    have hname := hproper name (by simp)
    simp [hname.no_dots] at hdots
  | case6 place name rest es hhere hbarred htrivial hdots hsize hlookup hrest =>
    obtain ⟨es', child, hes', hchild, _⟩ := exists_child_of_get? hget
    cases hhere.symm.trans hes'
    simp [hlookup] at hchild
  | case8 place name rest es hhere hbarred htrivial hdots hsize target hlookup hlast =>
    have hrest : rest = [] := by simpa using (Bool.and_eq_true_iff.mp hlast).1
    rw [← Except.ok.inj hhop, hrest]
  | case9 place name rest es hhere hbarred htrivial hdots hsize target hlookup hlast =>
    obtain ⟨es', child, hes', hchild, hrest⟩ := exists_child_of_get? hget
    cases hhere.symm.trans hes'
    cases hlookup.symm.trans hchild
    cases rest with
    | nil =>
      rcases hnode with hfollow | hlink
      · simp [hfollow] at hlast
      · exact absurd (Option.some.inj hrest).symm (hlink target)
    | cons => simp [get?, child?, entries] at hrest
  | case10 place name rest es hhere hbarred htrivial hdots hsize child hlink hlookup ih =>
    rw [List.append_cons] at hget hproper ⊢
    exact ih hget hhop hproper
  | _ => simp at hhop

theorem hop_empty (h : fs.DirectoryAt place) :
    hop fs followLast place ("" :: names) = hop fs followLast place names := by
  obtain ⟨es, hes⟩ := h
  rw [hop, hes]
  simp [barred, PathText.isTrivial]

theorem pieces_pathOf (hslash : ∀ name ∈ place, '/' ∉ name.toList) :
    PathText.pieces (pathOf place) = if place = [] then ["", ""] else "" :: place := by
  split
  next hempty =>
    subst hempty
    decide
  next hne =>
    have hpath : pathOf place = PathText.ofPieces ("" :: place) := by
      rw [PathText.ofPieces_cons "" hne, String.empty_append, pathOf]
    rw [hpath, PathText.pieces_ofPieces (by simp)]
    exact List.forall_mem_cons.mpr ⟨by simp, hslash⟩

theorem isAbsolute_pathOf (place : List String) : PathText.isAbsolute (pathOf place) = true := by
  simp [PathText.isAbsolute, pathOf]

/-- The path of a place leads nowhere else. -/
theorem resolve_pathOf {node : DiskNode} {found : List String} (hp : fs.root.Proper)
    (hget : fs.root.get? place = some node) (hnode : ∀ target, node ≠ .link target)
    (h : fs.resolve (pathOf place) = .ok found) : found = place := by
  have hslash : ∀ name ∈ place, '/' ∉ name.toList :=
    fun name hname => ((hp.of_get? hget).1 name hname).no_slash
  have hlocate := locate_of_resolve h
  have hroot := directoryAt_of_locate hlocate
  have hpieces := locatePieces_of_locate hlocate
  rw [isAbsolute_pathOf, if_pos rfl] at hroot
  rw [locatePieces, isAbsolute_pathOf, if_pos rfl, pieces_pathOf hslash] at hpieces
  have hends : ∀ {r}, hop fs true [] (if place = [] then ["", ""] else "" :: place) = .ok r →
      r = .arrived (.found place) := by
    intro r hhop
    split at hhop
    next hempty =>
      subst hempty
      rw [hop_empty hroot, hop_empty hroot] at hhop
      exact (Except.ok.inj hhop).symm
    next =>
      rw [hop_empty hroot] at hhop
      rw [← List.nil_append place] at hget
      exact hop_names hp hget (.inr hnode) hhop
  rcases locateFrom_cases hpieces with hhop | ⟨_, _, _, _, hhop, _⟩
  · simpa using hends hhop
  · simpa using hends hhop

theorem hop_names_eq {node node' : DiskNode} (hp : fs.root.Proper)
    (hrefuses : fs'.refuses = fs.refuses) (hget : fs.root.get? (place ++ names) = some node)
    (hget' : fs'.root.get? (place ++ names) = some node') :
    hop fs' false place names = hop fs false place names := by
  induction names generalizing place with
  | nil => rfl
  | cons name rest ih =>
    have hname := (hp.of_get? hget).1 name (by simp)
    obtain ⟨es, child, hes, hchild, hrest⟩ := exists_child_of_get? hget
    obtain ⟨es', child', hes', hchild', hrest'⟩ := exists_child_of_get? hget'
    rw [List.append_cons] at hget hget'
    have htrivial : PathText.isTrivial name = false := by
      simp [PathText.isTrivial, hname.nonempty, hname.no_dot]
    have hdots : (name == "..") = false := by simpa using hname.no_dots
    rw [hop, hop, hes, hes']
    simp only [barred, hrefuses, htrivial, hdots, hchild, hchild', Bool.false_eq_true, if_false]
    split
    · rfl
    split
    · rfl
    cases rest with
    | nil =>
      cases child <;> cases child' <;> rfl
    | cons next rest =>
      obtain ⟨_, hnext, _⟩ := Option.bind_eq_some_iff.mp hrest
      obtain ⟨_, hnext', _⟩ := Option.bind_eq_some_iff.mp hrest'
      obtain ⟨_, rfl⟩ := exists_entries (isDirectory_of_child? hnext)
      obtain ⟨_, rfl⟩ := exists_entries (isDirectory_of_child? hnext')
      exact ih hget hget'

theorem locate_pathOf_eq {node node' : DiskNode} (hp : fs.root.Proper)
    (hrefuses : fs'.refuses = fs.refuses) (hne : place ≠ []) (hget : fs.root.get? place = some node)
    (hget' : fs'.root.get? place = some node') :
    fs'.locate false (pathOf place) = fs.locate false (pathOf place) := by
  have hslash : ∀ name ∈ place, '/' ∉ name.toList :=
    fun name hname => ((hp.of_get? hget).1 name hname).no_slash
  have hroot : ∀ {other : FileSystem} {found : DiskNode}, other.root.get? place = some found →
      other.DirectoryAt [] := by
    intro other found hfound
    obtain ⟨name, rest, rfl⟩ := List.exists_cons_of_ne_nil hne
    rw [← List.nil_append (name :: rest)] at hfound
    obtain ⟨es, _, hes, _⟩ := exists_child_of_get? hfound
    exact ⟨es, hes⟩
  have hhop : hop fs' false [] ("" :: place) = hop fs false [] ("" :: place) := by
    rw [hop_empty (hroot hget), hop_empty (hroot hget')]
    exact hop_names_eq hp hrefuses hget hget'
  rw [locate, locate, locatePieces, locatePieces, isAbsolute_pathOf, if_pos rfl, if_pos rfl,
    pieces_pathOf hslash, if_neg hne, locateFrom.eq_def, locateFrom.eq_def fs]
  dsimp only
  rw [hhop]
  cases hnames : hop fs false [] ("" :: place) with
  | error e => simp only [bind, Except.bind]
  | ok r =>
    rw [hop_empty (hroot hget)] at hnames
    rw [← List.nil_append place] at hget
    simp only [hop_names hp hget (.inl rfl) hnames, bind, Except.bind]

theorem canonicalize_eq_ok_iff {path : String} {found : List String} :
    fs.canonicalize path = .ok found ↔
      fs.resolve path = .ok found ∧ ∃ again, fs.resolve (pathOf found) = .ok again := by
  simp only [canonicalize, bind_eq_ok_iff, pure_eq_ok_iff]
  constructor
  · rintro ⟨there, hresolve, again, hagain, rfl⟩
    exact ⟨hresolve, again, hagain⟩
  · rintro ⟨hresolve, again, hagain⟩
    exact ⟨found, hresolve, again, hagain, rfl⟩

theorem list_eq_ok_iff {path : String} {es : List (String × DiskNode)} :
    fs.list path = .ok es ↔ ∃ place, fs.resolve path = .ok place ∧
      fs.root.get? place = some (.directory es) ∧ fs.refuses .list place = none := by
  simp only [list, bind_eq_ok_iff]
  refine exists_congr fun place => and_congr_right fun _ => ?_
  cases hget : fs.root.get? place with
  | none => simp
  | some node =>
    cases node with
    | directory entries =>
      rw [bind_eq_ok_iff]
      simp only [allow_eq_ok_iff, pure_eq_ok_iff, Option.some.injEq, directory.injEq]
      exact ⟨fun ⟨_, hgranted, heq⟩ => ⟨heq, hgranted⟩, fun ⟨heq, hgranted⟩ => ⟨(), hgranted, heq⟩⟩
    | file => simp
    | link => simp

theorem listable_iff_resolve :
    fs.Listable place ↔ ∃ there, fs.resolve (pathOf place) = .ok there ∧ fs.DirectoryAt there ∧
      fs.refuses .list there = none := by
  simp only [Listable, list_eq_ok_iff]
  constructor
  · rintro ⟨es, there, hresolve, hes, hgranted⟩
    exact ⟨there, hresolve, ⟨es, hes⟩, hgranted⟩
  · rintro ⟨there, hresolve, ⟨es, hes⟩, hgranted⟩
    exact ⟨es, there, hresolve, hes, hgranted⟩

theorem list_pathOf_eq_ok_iff {es es' : List (String × DiskNode)} (hp : fs.root.Proper)
    (hget : fs.root.get? place = some (.directory es)) :
    fs.list (pathOf place) = .ok es' ↔ es' = es ∧ fs.Listable place := by
  have hsame : ∀ {found}, fs.list (pathOf place) = .ok found → found = es := by
    intro found hlist
    obtain ⟨there, hresolve, hthere, _⟩ := list_eq_ok_iff.mp hlist
    rw [resolve_pathOf hp hget (by simp) hresolve, hget] at hthere
    cases hthere
    rfl
  constructor
  · intro hlist
    exact ⟨hsame hlist, es', hlist⟩
  · rintro ⟨rfl, found, hlist⟩
    rwa [hsame hlist] at hlist

/-! ## The order of entries -/

/-- The same file system, but for the order in which it lists the entries of directories. -/
structure Reordered (fs fs' : FileSystem) : Prop where
  root : fs.root.Reordered fs'.root
  workingDirectory : fs'.workingDirectory = fs.workingDirectory
  refuses : fs'.refuses = fs.refuses

namespace Reordered

end Reordered

end FileSystem

end SourceBundle
