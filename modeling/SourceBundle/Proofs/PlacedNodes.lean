import SourceBundle.Proofs.FollowedPaths

/-!
# Putting a node at a place

A file or an empty directory that is put where nothing is, or in the place of a file, leaves every
other place as it was. Trees of which one has all that the other has lead paths to the same places.
-/

namespace SourceBundle

namespace DiskNode

variable {tree node : DiskNode} {place : List String} {name : String}
  {es : List (String × DiskNode)}

/-! ## Entries -/

theorem lookup_setEntry (name other : String) (node : DiskNode) (es : List (String × DiskNode)) :
    (setEntry name node es).lookup other = if other = name then some node else es.lookup other := by
  induction es with
  | nil =>
    by_cases h : other = name
    · simp [setEntry, h]
    · have hbeq : (other == name) = false := beq_eq_false_iff_ne.mpr h
      simp [setEntry, List.lookup_cons, h, hbeq]
  | cons e es ih =>
    obtain ⟨first, old⟩ := e
    by_cases hfirst : first = name
    · by_cases h : other = name
      · simp [setEntry, hfirst, h]
      · have hbeq : (other == name) = false := beq_eq_false_iff_ne.mpr h
        simp [setEntry, List.lookup_cons, hfirst, h, hbeq]
    · have hset : (first == name) = false := beq_eq_false_iff_ne.mpr hfirst
      by_cases h : other = first
      · simp [setEntry, h, hfirst]
      · have hbeq : (other == first) = false := beq_eq_false_iff_ne.mpr h
        simp [setEntry, List.lookup_cons, hset, hbeq, ih]

theorem mem_setEntry {e : String × DiskNode} (h : e ∈ setEntry name node es) :
    e = (name, node) ∨ e ∈ es := by
  induction es with
  | nil => simpa [setEntry] using h
  | cons first es ih =>
    rw [setEntry] at h
    split at h
    · rcases List.mem_cons.mp h with rfl | h
      · exact .inl rfl
      · exact .inr (List.mem_cons_of_mem first h)
    · rcases List.mem_cons.mp h with rfl | h
      · exact .inr List.mem_cons_self
      · exact (ih h).imp_right (List.mem_cons_of_mem first)

theorem nodup_setEntry (h : (es.map (·.1)).Nodup) :
    ((setEntry name node es).map (·.1)).Nodup := by
  induction es with
  | nil => simp [setEntry]
  | cons first es ih =>
    obtain ⟨hfirst, hrest⟩ := List.nodup_cons.mp h
    rw [setEntry]
    split
    next heq =>
      rw [beq_iff_eq] at heq
      simpa [heq] using h
    next hne =>
      refine List.nodup_cons.mpr ⟨fun hmem => ?_, ih hrest⟩
      obtain ⟨e, he, hname⟩ := List.mem_map.mp hmem
      rcases mem_setEntry he with rfl | he
      · exact hne (beq_iff_eq.mpr hname.symm)
      · exact hfirst (List.mem_map.mpr ⟨e, he, hname⟩)

/-! ## Places -/

/-- Something can be put at the place without taking anything else away. -/
structure Vacant (tree : DiskNode) (place : List String) : Prop where
  above : place ≠ [] → ∃ es, tree.get? place.dropLast = some (.directory es)
  below : ∀ old, tree.get? place = some old → old.entries = []

theorem get?_of_entries_nil (h : node.entries = []) (hne : place ≠ []) :
    node.get? place = none := by
  obtain ⟨name, names, rfl⟩ := List.exists_cons_of_ne_nil hne
  simp [get?, child?, h]

theorem Vacant.exists_child {names : List String} (h : tree.Vacant (name :: names))
    (hne : names ≠ []) : ∃ child, tree.child? name = some child ∧ child.Vacant names := by
  obtain ⟨es, hes⟩ := h.above (List.cons_ne_nil name names)
  rw [List.dropLast_cons_of_ne_nil hne] at hes
  obtain ⟨child, hchild, habove⟩ := Option.bind_eq_some_iff.mp hes
  refine ⟨child, hchild, fun _ => ⟨es, habove⟩, fun old hold => h.below old ?_⟩
  simp [get?, hchild, hold]

theorem Vacant.exists_entries {names : List String} (h : tree.Vacant (name :: names)) :
    ∃ es, tree = .directory es := by
  by_cases hne : names = []
  · obtain ⟨es, hes⟩ := h.above (List.cons_ne_nil name names)
    refine ⟨es, ?_⟩
    simpa [hne, get?] using hes
  · obtain ⟨child, hchild, _⟩ := h.exists_child hne
    exact DiskNode.exists_entries (isDirectory_of_child? hchild)

theorem child?_set {names : List String} (other : String) :
    (tree.set (name :: names) node).child? other =
      if other = name then some (((tree.child? name).getD (.directory [])).set names node)
      else tree.child? other := by
  simp only [set, child?, entries, lookup_setEntry]

@[simp] theorem get?_set_self : (tree.set place node).get? place = some node := by
  induction place generalizing tree with
  | nil => rfl
  | cons name names ih => simp [get?, child?_set, ih]

def bare : DiskNode → DiskNode
  | .directory _ => .directory []
  | node => node

/-- Nothing changes but at the place itself. -/
theorem bare_get?_set (h : tree.Vacant place) (hnode : node.entries = []) {other : List String}
    (hother : other ≠ place) :
    ((tree.set place node).get? other).map bare = (tree.get? other).map bare := by
  induction place generalizing tree other with
  | nil =>
    have hold : tree.get? other = none := get?_of_entries_nil (h.below tree rfl) hother
    have hnew : node.get? other = none := get?_of_entries_nil hnode hother
    rw [set, hold, hnew]
  | cons name names ih =>
    cases other with
    | nil =>
      obtain ⟨es, rfl⟩ := h.exists_entries
      rfl
    | cons first rest =>
      rw [get?, get?, child?_set]
      by_cases hfirst : first = name
      · have hrest : rest ≠ names := fun heq => hother (by rw [hfirst, heq])
        rw [if_pos hfirst, Option.bind_some, hfirst]
        cases hchild : tree.child? name with
        | some child =>
          refine ih ?_ hrest
          by_cases hne : names = []
          · subst hne
            refine ⟨fun habsurd => absurd rfl habsurd, fun old hold => h.below old ?_⟩
            simpa [get?, hchild] using hold
          · obtain ⟨child', hchild', hvacant⟩ := h.exists_child hne
            rw [hchild, Option.some.injEq] at hchild'
            exact hchild' ▸ hvacant
        | none =>
          have hnames : names = [] := by
            by_contra hne
            obtain ⟨child, hsome, _⟩ := h.exists_child hne
            simp [hchild] at hsome
          subst hnames
          simp [set, get?_of_entries_nil hnode hrest]
      · rw [if_neg hfirst]

theorem Proper.set (hp : tree.Proper) (h : tree.Vacant place)
    (hplace : ∀ name ∈ place, ProperName name) (hnode : node.Proper) :
    (tree.set place node).Proper := by
  induction place generalizing tree with
  | nil => exact hnode
  | cons name names ih =>
    obtain ⟨es, rfl⟩ := h.exists_entries
    obtain ⟨hname, hnames⟩ := List.forall_mem_cons.mp hplace
    have hchild : ((((DiskNode.directory es).child? name).getD (.directory [])).set names
        node).Proper := by
      by_cases hne : names = []
      · rw [hne]
        exact hnode
      · obtain ⟨child, hchild, hvacant⟩ := h.exists_child hne
        rw [hchild]
        exact ih (hp.of_child? hchild).2 hvacant hnames
    cases hp with
    | directory nodup proper below =>
      refine .directory (nodup_setEntry nodup) (fun e he => ?_) (fun e he => ?_)
      · rcases mem_setEntry he with rfl | he
        · exact hname
        · exact proper e he
      · rcases mem_setEntry he with rfl | he
        · exact hchild
        · exact below e he

end DiskNode

end SourceBundle
