import Mathlib.Data.List.Sort
import SourceBundle.Proofs.DiskNames
import SourceBundle.Walk

/-!
# The order of names

Names are ordered by their bytes, and paths by their names from the outermost on. Sorting by
insertion is the insertion sort of the library, so its results are ordered, lose nothing and leave
what the order does not tell apart in its places.
-/

namespace SourceBundle

/-! ## Sorting -/

section

variable {α : Type} (le : α → α → Bool)

theorem insertOrdered_eq (a : α) (l : List α) :
    insertOrdered le a l = l.orderedInsert (fun x y => le x y = true) a := by
  induction l with
  | nil => rfl
  | cons b l ih => rw [insertOrdered, List.orderedInsert_cons, ih]

theorem stableSort_eq (l : List α) :
    stableSort le l = l.insertionSort fun x y => le x y = true := by
  induction l with
  | nil => rfl
  | cons a l ih => rw [stableSort, insertOrdered_eq, ih, List.insertionSort_cons]

theorem stableSort_perm (l : List α) : (stableSort le l).Perm l := by
  rw [stableSort_eq]
  exact List.perm_insertionSort _ l

variable {le} in
theorem pairwise_stableSort (htotal : ∀ a b, le a b = true ∨ le b a = true)
    (htrans : ∀ a b c, le a b = true → le b c = true → le a c = true) (l : List α) :
    (stableSort le l).Pairwise fun a b => le a b = true := by
  have : Std.Total fun a b => le a b = true := ⟨htotal⟩
  have : IsTrans α fun a b => le a b = true := ⟨htrans⟩
  rw [stableSort_eq]
  exact List.pairwise_insertionSort _ l

variable {le} in
theorem stableSort_eq_self {l : List α} (h : l.Pairwise fun a b => le a b = true) :
    stableSort le l = l := by
  rw [stableSort_eq]
  exact h.insertionSort_eq

variable {le} in
/-- Elements that the order does not tell apart keep their places. -/
theorem filter_stableSort {p : α → Bool}
    (h : ∀ a b, p a = true → p b = true → le a b = true) (l : List α) :
    (stableSort le l).filter p = l.filter p := by
  have hordered : (l.filter p).Pairwise fun a b => le a b = true :=
    List.pairwise_of_forall_mem_list fun a ha b hb =>
      h a b (List.mem_filter.mp ha).2 (List.mem_filter.mp hb).2
  have hsub : (l.filter p).Sublist (stableSort le l) := by
    rw [stableSort_eq]
    exact List.sublist_insertionSort hordered List.filter_sublist
  have hkept : (l.filter p).Sublist ((stableSort le l).filter p) := by
    simpa using hsub.filter p
  exact (hkept.eq_of_length ((stableSort_perm le l).filter p).length_eq.symm).symm

variable {le} in
theorem map_stableSort {f : α → α} (h : ∀ a b, le (f a) (f b) = le a b) (l : List α) :
    (stableSort le l).map f = stableSort le (l.map f) := by
  rw [stableSort_eq, stableSort_eq]
  exact List.map_insertionSort _ _ f l fun a _ b _ => by rw [h]

end

/-! ## Bytes -/

theorem bytesLe_iff {a b : List UInt8} : bytesLe a b = true ↔ a ≤ b := by
  fun_induction bytesLe a b with
  | case1 b => simp
  | case2 a as => simp
  | case3 a as b bs ih => simp [List.cons_le_cons_iff, ih]

def nameBytes (name : String) : List UInt8 :=
  Utf8.encode name.toList

theorem nameBytes_injective : Function.Injective nameBytes :=
  fun _ _ h => String.toList_inj.mp (Utf8.encode_injective h)

/-- What a path is ordered by: the bytes of each of its names. -/
def pathBytes (names : List String) : List (List UInt8) :=
  names.map DiskName.bytes

namespace Walk

theorem nameLe_iff {a b : String} :
    nameLe a b = true ↔ DiskName.bytes a ≤ DiskName.bytes b :=
  bytesLe_iff

theorem inNameOrder_perm (entries : List (String × DiskNode)) :
    (inNameOrder entries).Perm entries :=
  stableSort_perm _ entries

theorem pairwise_inNameOrder {entries : List (String × DiskNode)}
    (hnames : (entries.map (·.1)).Nodup) :
    (inNameOrder entries).Pairwise fun a b => DiskName.bytes a.1 < DiskName.bytes b.1 := by
  have hle : (inNameOrder entries).Pairwise fun a b => nameLe a.1 b.1 = true := by
    refine pairwise_stableSort ?_ ?_ entries
    · intro a b
      simpa only [nameLe_iff] using List.le_total _ _
    · intro a b c hab hbc
      rw [nameLe_iff] at *
      exact List.le_trans hab hbc
  have hne : (inNameOrder entries).Pairwise fun a b => a.1 ≠ b.1 := by
    have hsorted := ((inNameOrder_perm entries).map (·.1)).nodup_iff.mpr hnames
    exact List.pairwise_map.mp hsorted
  refine (hle.and hne).imp fun {a b} ⟨h, hdiff⟩ => ?_
  rcases List.le_iff_lt_or_eq.mp (nameLe_iff.mp h) with hlt | heq
  · exact hlt
  · exact absurd (DiskName.bytes_injective heq) hdiff

end Walk

end SourceBundle
