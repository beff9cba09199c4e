import SourceBundle.Proofs.GoDocumentation
import SourceBundle.Proofs.LiteralPatterns

/-!
# The shape of outlines

An outline of a Go source tells either symbols or mistakes. The symbols nest at most once: only a
struct and an interface have children, fields and methods with a signature and nothing below them.
A documentation is never blank and has no blank at its ends.
-/

namespace SourceBundle

/-! ## Trimmed texts -/

theorem not_blank_of_mem_head?_trimBlank {c : Char} {cs : List Char}
    (h : c ∈ (trimBlank cs).head?) : isBlank c = false := by
  obtain ⟨rest, htrim⟩ : ∃ rest, trimBlank cs = c :: rest := by
    cases htrim : trimBlank cs with
    | nil => simp [htrim] at h
    | cons d rest => exact ⟨rest, by rw [htrim] at h; rw [Option.some.inj h]⟩
  obtain ⟨more, hmore⟩ := trimEndBlank_isPrefixOf (cs.dropWhile isBlank)
  rw [← trimBlank, htrim, List.cons_append] at hmore
  have hhead := List.head?_dropWhile_not isBlank cs
  rwa [← hmore] at hhead

theorem not_blank_of_mem_getLast?_trimEndBlank {c : Char} {cs : List Char}
    (h : c ∈ (trimEndBlank cs).getLast?) : isBlank c = false := by
  induction cs with
  | nil => simp [trimEndBlank] at h
  | cons d cs ih =>
    rw [trimEndBlank_cons] at h
    cases htail : trimEndBlank cs with
    | nil =>
      rw [htail] at h
      cases hd : isBlank d with
      | true => simp [hd] at h
      | false =>
        obtain rfl : d = c := by simpa [hd] using h
        exact hd
    | cons e rest => exact ih (by simpa [htail] using h)

/-! ## Symbols -/

/-- A documentation says something, without blanks around it. -/
def IsTrimmedDoc (doc : Option String) : Prop :=
  ∀ text ∈ doc, text ≠ "" ∧ (∀ c ∈ text.toList.head?, isBlank c = false) ∧
    ∀ c ∈ text.toList.getLast?, isBlank c = false

namespace Symbol

/-- A child of a type: it has a signature and no children. -/
structure IsMember (kind : SymbolKind) (s : Symbol) : Prop where
  kind_eq : s.kind = kind
  signature_isSome : s.signature.isSome
  children_eq : s.children = []
  doc : IsTrimmedDoc s.doc

/-- A symbol of the top level. -/
structure IsTopLevel (s : Symbol) : Prop where
  kind_mem : s.kind ∈ [SymbolKind.function, .method, .struct, .interface, .type, .const, .var]
  kind_of_children : s.children ≠ [] → s.kind = .struct ∨ s.kind = .interface
  fields : s.kind = .struct → ∀ t ∈ s.children, t.IsMember .field
  methods : s.kind = .interface → ∀ t ∈ s.children, t.IsMember .method
  signature : s.kind = .function ∨ s.kind = .method →
    ∃ signature, s.signature = some signature ∧ "func ".toList <+: signature.toList
  doc : IsTrimmedDoc s.doc

theorem IsTopLevel.of_childless {s : Symbol}
    (hkind : s.kind ∈ [SymbolKind.function, .method, .struct, .interface, .type, .const, .var])
    (hchildren : s.children = [])
    (hsignature : s.kind = .function ∨ s.kind = .method →
      ∃ signature, s.signature = some signature ∧ "func ".toList <+: signature.toList)
    (hdoc : IsTrimmedDoc s.doc) : s.IsTopLevel where
  kind_mem := hkind
  kind_of_children h := absurd hchildren h
  fields _ t ht := by rw [hchildren] at ht; cases ht
  methods _ t ht := by rw [hchildren] at ht; cases ht
  signature := hsignature
  doc := hdoc

theorem children_of_member {s t : Symbol} (hs : s.IsTopLevel) (ht : t ∈ s.children) :
    t.children = [] := by
  rcases hs.kind_of_children (List.ne_nil_of_mem ht) with hkind | hkind
  · exact (hs.fields hkind t ht).children_eq
  · exact (hs.methods hkind t ht).children_eq

theorem countAll_eq_sum (ss : List Symbol) : countAll ss = (ss.map count).sum := by
  induction ss with
  | nil => rfl
  | cons s ss ih => rw [countAll, ih, List.map_cons, List.sum_cons]

theorem count_of_childless {s : Symbol} (h : s.children = []) : s.count = 1 := by
  cases s
  subst h
  rfl

theorem count_of_flat {s : Symbol} (h : ∀ t ∈ s.children, t.children = []) :
    s.count = 1 + s.children.length := by
  have hcount : s.count = 1 + countAll s.children := by
    cases s
    rfl
  rw [hcount, countAll_eq_sum,
    List.map_congr_left fun t ht => count_of_childless (h t ht)]
  simp

end Symbol

namespace Go

/-! ## Documentations -/

theorem isTrimmedDoc_docText (run : List Comment) : IsTrimmedDoc (docText run) := by
  intro text htext
  rw [docText] at htext
  split at htext
  · cases htext
  · next hne =>
    obtain rfl := Option.some.inj htext
    refine ⟨?_, ?_, ?_⟩
    · simpa [List.isEmpty_iff] using hne
    · rw [String.toList_ofList]
      exact fun c => not_blank_of_mem_head?_trimBlank
    · rw [String.toList_ofList]
      exact fun c => not_blank_of_mem_getLast?_trimEndBlank

theorem isTrimmedDoc_of_mem_documentedFrom {α : Type} {before pieces : List (Piece α)}
    {p : α × Option String} (h : p ∈ documentedFrom before pieces) : IsTrimmedDoc p.2 := by
  induction pieces generalizing before with
  | nil => cases h
  | cons piece pieces ih =>
    cases piece with
    | item startRow endRow value =>
      rcases List.mem_cons.mp h with rfl | h
      · exact isTrimmedDoc_docText _
      · exact ih h
    | comment c => exact ih h
    | mark => exact ih h

theorem isTrimmedDoc_of_mem_documented {α : Type} {pieces : List (Piece α)}
    {p : α × Option String} (h : p ∈ documented pieces) : IsTrimmedDoc p.2 :=
  isTrimmedDoc_of_mem_documentedFrom h

/-! ## The symbols of each declaration -/

variable {doc : Option String} {s : Symbol}

theorem Field.isMember_of_mem {f : Field} (hdoc : IsTrimmedDoc doc) (h : s ∈ f.symbols doc) :
    s.IsMember .field := by
  rw [Field.symbols] at h
  split at h
  · rw [List.mem_singleton.mp h]
    exact ⟨rfl, rfl, rfl, hdoc⟩
  · obtain ⟨name, -, rfl⟩ := List.mem_map.mp h
    exact ⟨rfl, rfl, rfl, hdoc⟩

theorem InterfaceMember.isMember_of_mem {m : InterfaceMember} (hdoc : IsTrimmedDoc doc)
    (h : s ∈ m.symbols doc) : s.IsMember .method := by
  cases m with
  | method name signature =>
    rw [List.mem_singleton.mp h]
    exact ⟨rfl, rfl, rfl, hdoc⟩
  | element => cases h

theorem TypeSpec.isTopLevel_symbol (spec : TypeSpec) (hdoc : IsTrimmedDoc doc) :
    (spec.symbol doc).IsTopLevel := by
  rw [TypeSpec.symbol]
  split
  · refine ⟨by simp [Symbol.kind], fun _ => .inl rfl, fun _ t ht => ?_, by simp [Symbol.kind],
      by simp [Symbol.kind], hdoc⟩
    obtain ⟨p, hp, ht⟩ := List.mem_flatMap.mp ht
    exact Field.isMember_of_mem (isTrimmedDoc_of_mem_documented hp) ht
  · refine ⟨by simp [Symbol.kind], fun _ => .inr rfl, by simp [Symbol.kind], fun _ t ht => ?_,
      by simp [Symbol.kind], hdoc⟩
    obtain ⟨p, hp, ht⟩ := List.mem_flatMap.mp ht
    exact InterfaceMember.isMember_of_mem (isTrimmedDoc_of_mem_documented hp) ht
  · exact .of_childless (by simp [Symbol.kind]) rfl (by simp [Symbol.kind]) hdoc

theorem ValueSpec.isTopLevel_of_mem {specs : List ValueSpec} {kind : SymbolKind}
    (hkind : kind = .const ∨ kind = .var) (hdoc : IsTrimmedDoc doc)
    (h : s ∈ specs.flatMap (·.symbols kind doc)) : s.IsTopLevel := by
  obtain ⟨spec, -, h⟩ := List.mem_flatMap.mp h
  obtain ⟨name, -, rfl⟩ := List.mem_map.mp h
  rcases hkind with rfl | rfl
  · exact .of_childless (by simp [Symbol.kind]) rfl (by simp [Symbol.kind]) hdoc
  · exact .of_childless (by simp [Symbol.kind]) rfl (by simp [Symbol.kind]) hdoc

theorem Declaration.isTopLevel_of_mem {d : Declaration} (hdoc : IsTrimmedDoc doc)
    (h : s ∈ d.symbols doc) : s.IsTopLevel := by
  have hfunc (cs : List Char) : ∃ signature, some (text ("func ".toList ++ cs)) = some signature ∧
      "func ".toList <+: signature.toList := by
    have htext : (text ("func ".toList ++ cs)).toList = "func ".toList ++ cs :=
      String.toList_ofList
    exact ⟨_, rfl, by rw [htext]; exact List.prefix_append _ _⟩
  unfold Declaration.symbols at h
  split at h
  · rw [List.mem_singleton.mp h, List.append_assoc]
    exact .of_childless (by simp [Symbol.kind]) rfl (fun _ => hfunc _) hdoc
  · rw [List.mem_singleton.mp h, List.append_assoc, List.append_assoc]
    exact .of_childless (by simp [Symbol.kind]) rfl (fun _ => hfunc _) hdoc
  · obtain ⟨spec, -, rfl⟩ := List.mem_map.mp h
    exact spec.isTopLevel_symbol hdoc
  · exact ValueSpec.isTopLevel_of_mem (.inl rfl) hdoc h
  · exact ValueSpec.isTopLevel_of_mem (.inr rfl) hdoc h
  · cases h

theorem File.isTopLevel_of_mem {file : File} (h : s ∈ file.symbols) : s.IsTopLevel := by
  obtain ⟨p, hp, hs⟩ := List.mem_flatMap.mp h
  exact Declaration.isTopLevel_of_mem (isTrimmedDoc_of_mem_documented hp) hs

/-! ## Outlines -/

theorem length_diagnosis_le (source : List Char) (path : String) :
    (diagnosis source path).length ≤ 10 := by
  rw [diagnosis]
  split
  · simp
  · rw [List.length_map, List.length_take, toldMistakes]
    omega

/-- A source that is no Go file has an outline of at least one and at most ten mistakes. Any other
one has an outline of symbols alone, of the shape that the readers of an outline rely on. -/
theorem goOutline_wellFormed (source path : String) :
    (File.read? source.toList = none ∧ (goOutline source path).symbols = [] ∧
        1 ≤ (goOutline source path).errors.length ∧ (goOutline source path).errors.length ≤ 10) ∨
      ((File.read? source.toList).isSome ∧ (goOutline source path).errors = [] ∧
        (∀ s ∈ (goOutline source path).symbols, s.IsTopLevel) ∧
        (goOutline source path).symbolCount = (goOutline source path).symbols.length +
          ((goOutline source path).symbols.map (·.children.length)).sum) := by
  rw [goOutline]
  cases hread : File.read? source.toList with
  | none =>
    refine .inl ⟨rfl, rfl, ?_, length_diagnosis_le _ _⟩
    exact List.length_pos_iff.mpr (diagnosis_ne_nil _ _)
  | some file =>
    have htop : ∀ s ∈ file.symbols, s.IsTopLevel := fun s => File.isTopLevel_of_mem
    have hcount : ∀ s ∈ file.symbols, s.count = 1 + s.children.length := fun s hs =>
      Symbol.count_of_flat fun t => Symbol.children_of_member (htop s hs)
    refine .inr ⟨rfl, rfl, htop, ?_⟩
    rw [Outline.symbolCount, Symbol.countAll_eq_sum, List.map_congr_left hcount]
    dsimp only
    rw [List.sum_map_add]
    simp

end Go

end SourceBundle
