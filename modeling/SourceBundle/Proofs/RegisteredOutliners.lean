import SourceBundle.GoOutliner
import SourceBundle.Proofs.NameOrder
import SourceBundle.Proofs.PathParents

/-!
# The outliners of a registry

After any row of registrations an extension belongs to the outliner that was registered last among
those that list it, and the extensions that belong to some outliner are listed once each, in the order
of their bytes. A path is given to the outliner of its extension.
-/

namespace SourceBundle

/-! ## Extensions of paths -/

namespace PathText

/-- The last step of a path is a name; only pieces that name no step come behind it. -/
def EndsInName (path name : String) : Prop :=
  isTrivial name = false ∧ name ≠ ".." ∧
    ∃ front behind, pieces path = front ++ name :: behind ∧ ∀ p ∈ behind, isTrivial p = true

/-- The name at the end of a path has an extension: the text whose bytes stand behind its last dot,
where something stands before that dot. -/
def HasExtension (path ext : String) : Prop :=
  ∃ name stem, EndsInName path name ∧
    DiskName.bytes name = stem ++ 0x2E :: Utf8.encode ext.toList ∧ stem ≠ [] ∧ '.' ∉ ext.toList

theorem trimPieces_append {front behind : List String} {name : String}
    (hname : isTrivial name = false) (hbehind : ∀ p ∈ behind, isTrivial p = true) :
    trimPieces (front ++ name :: behind) = front ++ [name] := by
  have hdrop (more : List String) :
      (behind.reverse ++ more).dropWhile isTrivial = more.dropWhile isTrivial :=
    List.dropWhile_append_of_pos fun p hp => hbehind p (List.mem_reverse.mp hp)
  cases front with
  | nil =>
    have hnil : behind.reverse.dropWhile isTrivial = [] := by simpa using hdrop []
    simp [trimPieces, hnil]
  | cons first front => simp [trimPieces, hdrop, hname]

theorem stepPieces_eq {path name : String} {front : List String}
    (h : trimPieces (pieces path) = front ++ [name]) (hname : isTrivial name = false) :
    stepPieces path = front ++ [name] := by
  rw [stepPieces, h]
  cases front with
  | nil =>
    have hne : name ≠ "" := fun heq => by simp [isTrivial, heq] at hname
    simp [hne]
  | cons first front => cases front <;> rfl

theorem fileName?_eq_some_iff {path name : String} :
    fileName? path = some name ↔ EndsInName path name := by
  constructor
  · intro h
    rw [fileName?] at h
    split at h
    · next last hlast =>
      split at h
      · cases h
      next hplain =>
      obtain rfl := Option.some.inj h
      obtain ⟨htrivial, hdots⟩ : isTrivial last = false ∧ last ≠ ".." := by simpa using hplain
      obtain ⟨tail, htail, hpieces⟩ := exists_trimmed_tail (pieces_ne_nil path)
      obtain ⟨front, hfront⟩ : ∃ front, trimPieces (pieces path) = front ++ [last] := by
        rw [stepPieces] at hlast
        split at hlast
        · next first hfirst =>
          split at hlast
          · cases hlast
          · exact ⟨[], by simpa [hfirst] using hlast⟩
        · exact List.getLast?_eq_some_iff.mp hlast
      refine ⟨htrivial, hdots, front, tail, ?_, htail⟩
      rw [hpieces, hfront, List.append_assoc, List.singleton_append]
    · cases h
  · rintro ⟨htrivial, hdots, front, behind, hpieces, hbehind⟩
    have hsteps : stepPieces path = front ++ [name] :=
      stepPieces_eq (hpieces ▸ trimPieces_append htrivial hbehind) htrivial
    rw [fileName?, hsteps]
    simp [htrivial, hdots]

theorem extensionOfName_append {stem ext : List UInt8} (h : 0x2E ∉ ext) :
    extensionOfName (stem ++ 0x2E :: ext) = if stem = [] then none else some ext := by
  have hending : (stem ++ 0x2E :: ext).reverse.takeWhile (· != 0x2E) = ext.reverse := by
    rw [List.reverse_append, List.reverse_cons, List.append_assoc,
      List.takeWhile_append_of_pos fun byte hbyte => by
        simpa using fun heq : byte = 0x2E => h (heq ▸ List.mem_reverse.mp hbyte)]
    simp
  have hlength : (stem ++ 0x2E :: ext).length - ext.length - 1 = stem.length := by
    rw [List.length_append, List.length_cons]
    omega
  have hshorter : ext.length < (stem ++ 0x2E :: ext).length := by
    rw [List.length_append, List.length_cons]
    omega
  rw [extensionOfName, hending, List.reverse_reverse, hlength, List.take_left]
  cases stem with
  | nil => simp
  | cons c cs => simp only [hshorter, decide_true, List.isEmpty_cons, Bool.not_false, Bool.and_self,
      if_true, List.cons_ne_nil, if_false]

theorem extensionOfName_of_not_mem {name : List UInt8} (h : 0x2E ∉ name) :
    extensionOfName name = none := by
  have hall : name.reverse.takeWhile (· != 0x2E) = name.reverse :=
    List.takeWhile_eq_self_iff.mpr fun byte hbyte => by
      simpa using fun heq : byte = 0x2E => h (heq ▸ List.mem_reverse.mp hbyte)
  simp [extensionOfName, hall]

theorem extensionOfName_eq_some_iff {name ext : List UInt8} :
    extensionOfName name = some ext ↔
      ∃ stem, name = stem ++ 0x2E :: ext ∧ stem ≠ [] ∧ 0x2E ∉ ext := by
  constructor
  · intro h
    by_cases hdot : 0x2E ∈ name
    · obtain ⟨back, front, hreverse, hfirst⟩ := List.eq_append_cons_of_mem (List.mem_reverse.mpr hdot)
      have hback : 0x2E ∉ back.reverse := fun hmem => hfirst (List.mem_reverse.mp hmem)
      have hname : name = front.reverse ++ 0x2E :: back.reverse := by
        rw [← List.reverse_reverse name, hreverse]
        simp
      rw [hname, extensionOfName_append hback] at h
      split at h
      · cases h
      · next hstem =>
        obtain rfl := Option.some.inj h
        exact ⟨front.reverse, hname, hstem, hback⟩
    · rw [extensionOfName_of_not_mem hdot] at h
      cases h
  · rintro ⟨stem, rfl, hstem, hext⟩
    rw [extensionOfName_append hext, if_neg hstem]

theorem extension?_eq_some_iff {path ext : String} :
    extension? path = some ext ↔ HasExtension path ext := by
  have hdot : 0x2E ∉ Utf8.encode ext.toList ↔ '.' ∉ ext.toList :=
    not_congr (Utf8.plain_mem_encode_iff (c := '.') (by decide))
  simp only [extension?, Option.bind_eq_some_iff, Option.map_eq_some_iff,
    extensionOfName_eq_some_iff, Utf8.strict_eq_some_iff, fileName?_eq_some_iff]
  constructor
  · rintro ⟨name, hends, _, ⟨stem, hbytes, hstem, hext⟩, cs, rfl, rfl⟩
    rw [String.toList_ofList] at hdot
    exact ⟨name, stem, hends, by rwa [String.toList_ofList], hstem,
      by rwa [String.toList_ofList, ← hdot]⟩
  · rintro ⟨name, stem, hends, hbytes, hstem, hext⟩
    exact ⟨name, hends, _, ⟨stem, hbytes, hstem, hdot.mpr hext⟩, ext.toList, rfl,
      String.ofList_toList⟩

end PathText

/-! ## Registrations -/

/-- At a place in a row of outliners stands the last one that lists an extension. -/
structure LatestAt (outliners : List Outliner) (ext : String) (place : Nat) (outliner : Outliner) :
    Prop where
  stands : outliners[place]? = some outliner
  lists : ext ∈ outliner.extensions
  last : ∀ later other, place < later → outliners[later]? = some other → ext ∉ other.extensions

theorem LatestAt.of_concat {outliners : List Outliner} {ext : String} {place : Nat}
    {outliner new : Outliner} (h : LatestAt outliners ext place outliner)
    (hnew : ext ∉ new.extensions) : LatestAt (outliners ++ [new]) ext place outliner where
  stands := by
    rw [List.getElem?_append_left (List.getElem?_eq_some_iff.mp h.stands).1, h.stands]
  lists := h.lists
  last later other hlater hother := by
    rw [List.getElem?_append] at hother
    split at hother
    · exact h.last later other hlater hother
    · rw [List.mem_singleton.mp (List.mem_of_getElem? hother)]
      exact hnew

theorem LatestAt.of_concat_of_not_mem {outliners : List Outliner} {ext : String} {place : Nat}
    {outliner new : Outliner} (h : LatestAt (outliners ++ [new]) ext place outliner)
    (hnew : ext ∉ new.extensions) : LatestAt outliners ext place outliner where
  stands := by
    have hstands := h.stands
    rw [List.getElem?_append] at hstands
    split at hstands
    · exact hstands
    · rw [List.mem_singleton.mp (List.mem_of_getElem? hstands)] at h
      exact absurd h.lists hnew
  lists := h.lists
  last later other hlater hother :=
    h.last later other hlater (by
      rw [List.getElem?_append_left (List.getElem?_eq_some_iff.mp hother).1, hother])

theorem latestAt_concat {outliners : List Outliner} {ext : String} {new : Outliner}
    (hnew : ext ∈ new.extensions) : LatestAt (outliners ++ [new]) ext outliners.length new where
  stands := by simp
  lists := hnew
  last later other hlater hother := by
    have hlength := (List.getElem?_eq_some_iff.mp hother).1
    rw [List.length_append, List.length_singleton] at hlength
    omega

theorem exists_latestAt_iff {outliners : List Outliner} {ext : String} :
    (∃ place outliner, LatestAt outliners ext place outliner) ↔
      ∃ outliner ∈ outliners, ext ∈ outliner.extensions := by
  constructor
  · rintro ⟨place, outliner, h⟩
    exact ⟨outliner, List.mem_of_getElem? h.stands, h.lists⟩
  · rintro ⟨outliner, houtliner, hlists⟩
    induction outliners using List.reverseRecOn with
    | nil => cases houtliner
    | append_singleton outliners new ih =>
      by_cases hnew : ext ∈ new.extensions
      · exact ⟨outliners.length, new, latestAt_concat hnew⟩
      · have hbefore : outliner ∈ outliners := by
          rcases List.mem_append.mp houtliner with h | h
          · exact h
          · exact absurd (List.mem_singleton.mp h ▸ hlists) hnew
        obtain ⟨place, latest, hlatest⟩ := ih hbefore
        exact ⟨place, latest, hlatest.of_concat hnew⟩

namespace OutlineRegistry

variable {r : OutlineRegistry} {ext : String}

def Listed (places : List (String × Nat)) : Prop :=
  (places.map fun entry => nameBytes entry.1).Pairwise (· < ·)

theorem lookup_cons_eq (key other : String) (place : Nat) (places : List (String × Nat)) :
    ((other, place) :: places).lookup key = if key = other then some place else places.lookup key := by
  rw [List.lookup_cons]
  by_cases hkey : key = other
  · simp [hkey]
  · rw [beq_eq_false_iff_ne.mpr hkey, if_neg hkey]

theorem lookup_assign (ext key : String) (place : Nat) (places : List (String × Nat)) :
    (assign ext place places).lookup key = if key = ext then some place else places.lookup key := by
  fun_induction assign ext place places with
  | case1 => rw [lookup_cons_eq]
  | case2 other current rest hother =>
    obtain rfl := eq_of_beq hother
    rw [lookup_cons_eq, lookup_cons_eq]
    split <;> rfl
  | case3 other current rest hother hle => rw [lookup_cons_eq]
  | case4 other current rest hother hle ih =>
    have hne : ext ≠ other := fun heq => hother (by simp [heq])
    rw [lookup_cons_eq, lookup_cons_eq, ih]
    by_cases hkey : key = ext
    · rw [if_neg (hkey ▸ hne), if_pos hkey, if_pos hkey]
    · rw [if_neg hkey, if_neg hkey]

theorem mem_assign {ext : String} {place : Nat} {places : List (String × Nat)}
    {entry : String × Nat} (h : entry ∈ assign ext place places) :
    entry = (ext, place) ∨ entry ∈ places := by
  fun_induction assign ext place places with
  | case1 => exact .inl (List.mem_singleton.mp h)
  | case2 other current rest hother =>
    rcases List.mem_cons.mp h with rfl | h
    · exact .inl rfl
    · exact .inr (List.mem_cons_of_mem _ h)
  | case3 other current rest hother hle => exact List.mem_cons.mp h
  | case4 other current rest hother hle ih =>
    rcases List.mem_cons.mp h with rfl | h
    · exact .inr List.mem_cons_self
    · exact (ih h).imp_right (List.mem_cons_of_mem _)

theorem listed_assign {ext : String} {place : Nat} {places : List (String × Nat)}
    (h : Listed places) : Listed (assign ext place places) := by
  unfold Listed at h ⊢
  fun_induction assign ext place places with
  | case1 => simp
  | case2 other current rest hother =>
    obtain rfl := eq_of_beq hother
    exact h
  | case3 other current rest hother hle =>
    have hne : nameBytes ext ≠ nameBytes other := fun heq =>
      hother (by simp [nameBytes_injective heq])
    have hlt : nameBytes ext < nameBytes other :=
      (List.le_iff_lt_or_eq.mp (bytesLe_iff.mp hle)).resolve_right hne
    rw [List.map_cons]
    refine List.pairwise_cons.mpr ⟨fun bytes hbytes => ?_, h⟩
    rw [List.map_cons] at h hbytes
    rcases List.mem_cons.mp hbytes with rfl | hbytes
    · exact hlt
    · exact List.lt_trans hlt ((List.pairwise_cons.mp h).1 bytes hbytes)
  | case4 other current rest hother hle ih =>
    have hlt : nameBytes other < nameBytes ext :=
      List.not_le.mp fun hge => hle (bytesLe_iff.mpr hge)
    rw [List.map_cons] at h ⊢
    obtain ⟨hfirst, hrest⟩ := List.pairwise_cons.mp h
    refine List.pairwise_cons.mpr ⟨fun bytes hbytes => ?_, ih hrest⟩
    obtain ⟨entry, hentry, rfl⟩ := List.mem_map.mp hbytes
    rcases mem_assign hentry with rfl | hentry
    · exact hlt
    · exact hfirst _ (List.mem_map_of_mem hentry)

/-- An outliner's extensions all lead to its place. -/
theorem lookup_foldl_assign (key : String) (place : Nat) (exts : List String)
    (places : List (String × Nat)) :
    (exts.foldl (fun places ext => assign ext place places) places).lookup key =
      if key ∈ exts then some place else places.lookup key := by
  induction exts generalizing places with
  | nil => simp
  | cons ext exts ih =>
    rw [List.foldl_cons, ih, lookup_assign]
    by_cases hrest : key ∈ exts
    · rw [if_pos hrest, if_pos (List.mem_cons_of_mem ext hrest)]
    · rw [if_neg hrest]
      simp [hrest]

theorem listed_foldl_assign {place : Nat} {exts : List String} {places : List (String × Nat)}
    (h : Listed places) :
    Listed (exts.foldl (fun places ext => assign ext place places) places) := by
  induction exts generalizing places with
  | nil => exact h
  | cons ext exts ih => exact ih (listed_assign h)

/-- The places are those of the outliners that list an extension last, in order. -/
structure InStep (r : OutlineRegistry) : Prop where
  lookup_iff : ∀ ext place,
    r.places.lookup ext = some place ↔ ∃ outliner, LatestAt r.outliners ext place outliner
  listed : Listed r.places

theorem inStep_empty : InStep {} where
  lookup_iff ext place := by
    constructor
    · intro h
      cases h
    · rintro ⟨outliner, h⟩
      cases h.stands
  listed := List.Pairwise.nil

theorem InStep.register (h : InStep r) (new : Outliner) : InStep (r.register new) where
  lookup_iff ext place := by
    rw [OutlineRegistry.register, lookup_foldl_assign]
    by_cases hnew : ext ∈ new.extensions
    · rw [if_pos hnew, Option.some.injEq]
      constructor
      · rintro rfl
        exact ⟨new, latestAt_concat hnew⟩
      · rintro ⟨outliner, hlatest⟩
        have hlt := (List.getElem?_eq_some_iff.mp hlatest.stands).1
        rw [List.length_append, List.length_singleton] at hlt
        have hnot : ¬place < r.outliners.length := fun hplace =>
          hlatest.last _ new hplace (by simp) hnew
        omega
    · rw [if_neg hnew, h.lookup_iff]
      constructor
      · rintro ⟨outliner, hlatest⟩
        exact ⟨outliner, hlatest.of_concat hnew⟩
      · rintro ⟨outliner, hlatest⟩
        exact ⟨outliner, hlatest.of_concat_of_not_mem hnew⟩
  listed := listed_foldl_assign h.listed

def registerAll (r : OutlineRegistry) (later : List Outliner) : OutlineRegistry :=
  later.foldl register r

theorem InStep.registerAll (h : InStep r) (later : List Outliner) : InStep (r.registerAll later) := by
  induction later generalizing r with
  | nil => exact h
  | cons new later ih => exact ih (h.register new)

theorem outliners_registerAll (r : OutlineRegistry) (later : List Outliner) :
    (r.registerAll later).outliners = r.outliners ++ later := by
  induction later generalizing r with
  | nil => exact (List.append_nil _).symm
  | cons new later ih =>
    rw [registerAll, List.foldl_cons, ← registerAll, ih, register, List.append_assoc,
      List.singleton_append]

theorem mem_extensions_iff_lookup : ext ∈ r.extensions ↔ ∃ place, r.places.lookup ext = some place := by
  rw [extensions]
  induction r.places with
  | nil => simp
  | cons entry places ih =>
    rw [List.map_cons, List.mem_cons, ih, lookup_cons_eq]
    by_cases hext : ext = entry.1
    · simp [hext]
    · simp [hext]

theorem InStep.mem_extensions_iff (h : InStep r) :
    ext ∈ r.extensions ↔ ∃ outliner ∈ r.outliners, ext ∈ outliner.extensions := by
  rw [mem_extensions_iff_lookup, ← exists_latestAt_iff]
  exact exists_congr (h.lookup_iff ext)

theorem InStep.outlinerFor?_eq_some_iff (h : InStep r) {path : String} {outliner : Outliner} :
    r.outlinerFor? path = some outliner ↔ ∃ ext place,
      PathText.HasExtension path ext ∧ LatestAt r.outliners ("." ++ ext) place outliner := by
  rw [outlinerFor?, Option.bind_eq_some_iff]
  refine exists_congr fun ext => ?_
  rw [PathText.extension?_eq_some_iff, Option.bind_eq_some_iff]
  constructor
  · rintro ⟨hext, place, hlookup, hplace⟩
    obtain ⟨other, hlatest⟩ := (h.lookup_iff _ place).mp hlookup
    obtain rfl := Option.some.inj (hlatest.stands.symm.trans hplace)
    exact ⟨place, hext, hlatest⟩
  · rintro ⟨place, hext, hlatest⟩
    exact ⟨hext, place, (h.lookup_iff _ place).mpr ⟨outliner, hlatest⟩, hlatest.stands⟩

theorem InStep.outlinerFor?_eq_none_iff (h : InStep r) {path : String} :
    r.outlinerFor? path = none ↔ ∀ ext, PathText.HasExtension path ext →
      ∀ outliner ∈ r.outliners, "." ++ ext ∉ outliner.extensions := by
  constructor
  · intro hnone ext hext outliner houtliner hlists
    obtain ⟨place, latest, hlatest⟩ := exists_latestAt_iff.mpr ⟨outliner, houtliner, hlists⟩
    have hsome := h.outlinerFor?_eq_some_iff.mpr ⟨ext, place, hext, hlatest⟩
    rw [hnone] at hsome
    cases hsome
  · intro hnot
    rw [Option.eq_none_iff_forall_ne_some]
    intro outliner hsome
    obtain ⟨ext, place, hext, hlatest⟩ := h.outlinerFor?_eq_some_iff.mp hsome
    exact hnot ext hext outliner (List.mem_of_getElem? hlatest.stands) hlatest.lists

/-- What a registry does after some outliners have been registered, the last one last. -/
structure Serves (r : OutlineRegistry) (registered : List Outliner) : Prop where
  /-- A path is given to the outliner that was registered last for its extension. -/
  found : ∀ path outliner, r.outlinerFor? path = some outliner ↔ ∃ ext place,
    PathText.HasExtension path ext ∧ LatestAt registered ("." ++ ext) place outliner
  /-- It is given to none if it has no extension or none of them lists it. -/
  not_found : ∀ path, r.outlinerFor? path = none ↔ ∀ ext, PathText.HasExtension path ext →
    ∀ outliner ∈ registered, "." ++ ext ∉ outliner.extensions
  /-- Each place is that of the outliner which was registered last for the extension. -/
  in_step : ∀ ext place, r.places.lookup ext = some place ↔
    ∃ outliner, r.outliners[place]? = some outliner ∧ LatestAt registered ext place outliner
  /-- The extensions are in the order of their bytes, each of them once. -/
  listed : (r.extensions.map nameBytes).Pairwise (· < ·)
  mem_extensions_iff : ∀ ext, ext ∈ r.extensions ↔
    ∃ outliner ∈ registered, ext ∈ outliner.extensions

/-- Whatever is registered on top of nothing or of the standard outliner, the latest outliner of an
extension has it. -/
theorem registerAll_serves {start : OutlineRegistry} {first : List Outliner}
    (hstart : start = {} ∧ first = [] ∨ start = .standard ∧ first = [goOutliner])
    (later : List Outliner) : (start.registerAll later).Serves (first ++ later) := by
  obtain ⟨hinStep, hfirst⟩ : InStep start ∧ start.outliners = first := by
    rcases hstart with ⟨rfl, rfl⟩ | ⟨rfl, rfl⟩
    · exact ⟨inStep_empty, rfl⟩
    · exact ⟨inStep_empty.register goOutliner, rfl⟩
  have h := hinStep.registerAll later
  have houtliners := outliners_registerAll start later
  rw [hfirst] at houtliners
  rw [← houtliners]
  refine ⟨fun path outliner => h.outlinerFor?_eq_some_iff, fun path => h.outlinerFor?_eq_none_iff,
    fun ext place => ?_, ?_, fun ext => h.mem_extensions_iff⟩
  · rw [h.lookup_iff]
    exact exists_congr fun outliner => ⟨fun hlatest => ⟨hlatest.stands, hlatest⟩, And.right⟩
  · rw [extensions, List.map_map]
    exact h.listed

def overlappingOutliners : List Outliner :=
  let outline (_ path : String) : Except OutlineError Outline := .ok { path }
  [⟨[".fake", ".go"], outline⟩, ⟨[".mod", ".fake"], outline⟩]

theorem overlapping_outliners_served :
    (standard.registerAll overlappingOutliners).Serves (goOutliner :: overlappingOutliners) ∧
      (standard.registerAll overlappingOutliners).places = [(".fake", 2), (".go", 1), (".mod", 2)] :=
  ⟨registerAll_serves (.inr ⟨rfl, rfl⟩) overlappingOutliners, by decide⟩

end OutlineRegistry

end SourceBundle
