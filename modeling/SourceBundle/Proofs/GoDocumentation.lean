import SourceBundle.GoOutliner
import SourceBundle.Proofs.GoDocRuns

/-!
# What documents the symbols of a Go source

The symbols of an outline come from lists of items that are laid out in the source: the declarations
at its top level, and the members of a struct or an interface in its braces. Each of them has the
documentation that the run of comments above its item gives. Code in front of a comment on its line
keeps the comment out of the run, except where the comment stands directly behind the opening brace or
behind another comment.
-/

namespace SourceBundle.Go

def depthOf (source : List Char) : Nat :=
  depthBound (Cursor.ofText source).left

/-- Behind a cursor, a brace is the first thing behind a word. -/
def OpensBody (fuel : Nat) (word : String) (c brace : Cursor) : Prop :=
  ∃ d e, c.Reaches d ∧ e ∈ (Form.word word).ends fuel d ∧ brace = e.skip ∧
    brace.rest.head? = some '\x7b'

/-- The symbols of what stands between two cursors, all of them under one documentation. -/
def SharesDoc (symbols : Cursor → Cursor → Option String → List Symbol) (start stop : Cursor)
    (doc : Option String) (own : List Symbol) : Prop :=
  own = symbols start stop doc ∧ ∀ s ∈ own, s.doc = doc

/-- The symbols are the children of a type behind a cursor: none, or those of the fields of a struct
or of the methods of an interface, each documented by the run above it. -/
inductive ChildrenFrom (fuel : Nat) (c : Cursor) : List Symbol → Prop
  | none : ChildrenFrom fuel c []
  | fields {brace spans d children} (hbrace : OpensBody fuel "struct" c brace)
      (hlayout : Layout fuel field brace.next spans d) (hclose : d.rest.head? = some '\x7d')
      (hitems : DocumentedItems (some brace)
        (SharesDoc fun start stop => (readField fuel start stop).symbols) [] spans children) :
      ChildrenFrom fuel c children
  | methods {brace spans d children} (hbrace : OpensBody fuel "interface" c brace)
      (hlayout : Layout fuel interfaceElement brace.next spans d)
      (hclose : d.rest.head? = some '\x7d')
      (hitems : DocumentedItems (some brace)
        (SharesDoc fun start stop => (readInterfaceMember fuel start stop).symbols) [] spans
          children) :
      ChildrenFrom fuel c children

/-- The symbols of a declaration with the children that they have. -/
def DeclaresAt (fuel : Nat) (start stop : Cursor) (doc : Option String) (own : List Symbol) : Prop :=
  SharesDoc (fun start stop => (readDeclaration fuel start stop).symbols) start stop doc own ∧
    ∀ s ∈ own, ChildrenFrom fuel start s.children

/-! ## The symbols of a part share its documentation -/

theorem Field.doc_of_mem {f : Field} {doc : Option String} {s : Symbol} (h : s ∈ f.symbols doc) :
    s.doc = doc := by
  rw [Field.symbols] at h
  split at h
  · rw [List.mem_singleton.mp h]
    rfl
  · obtain ⟨name, -, rfl⟩ := List.mem_map.mp h
    rfl

theorem InterfaceMember.doc_of_mem {m : InterfaceMember} {doc : Option String} {s : Symbol}
    (h : s ∈ m.symbols doc) : s.doc = doc := by
  cases m with
  | method name signature =>
    rw [List.mem_singleton.mp h]
    rfl
  | element => cases h

theorem TypeSpec.doc_symbol (spec : TypeSpec) (doc : Option String) :
    (spec.symbol doc).doc = doc := by
  rw [TypeSpec.symbol]
  split <;> rfl

theorem ValueSpec.doc_of_mem {specs : List ValueSpec} {kind : SymbolKind} {doc : Option String}
    {s : Symbol} (h : s ∈ specs.flatMap (·.symbols kind doc)) : s.doc = doc ∧ s.children = [] := by
  obtain ⟨spec, -, h⟩ := List.mem_flatMap.mp h
  obtain ⟨name, -, rfl⟩ := List.mem_map.mp h
  exact ⟨rfl, rfl⟩

theorem Declaration.doc_of_mem {d : Declaration} {doc : Option String} {s : Symbol}
    (h : s ∈ d.symbols doc) : s.doc = doc := by
  unfold Declaration.symbols at h
  split at h
  · rw [List.mem_singleton.mp h]
    rfl
  · rw [List.mem_singleton.mp h]
    rfl
  · obtain ⟨spec, -, rfl⟩ := List.mem_map.mp h
    exact spec.doc_symbol doc
  · exact (ValueSpec.doc_of_mem h).1
  · exact (ValueSpec.doc_of_mem h).1
  · cases h

theorem Declaration.children_of_mem {d : Declaration} {doc : Option String} {s : Symbol}
    (h : s ∈ d.symbols doc) :
    s.children = [] ∨ ∃ specs spec, d = .types specs ∧ spec ∈ specs ∧ s = spec.symbol doc := by
  unfold Declaration.symbols at h
  split at h
  · rw [List.mem_singleton.mp h]
    exact .inl rfl
  · rw [List.mem_singleton.mp h]
    exact .inl rfl
  · next specs =>
    obtain ⟨spec, hspec, rfl⟩ := List.mem_map.mp h
    exact .inr ⟨specs, spec, rfl, hspec, rfl⟩
  · exact .inl (ValueSpec.doc_of_mem h).2
  · exact .inl (ValueSpec.doc_of_mem h).2
  · cases h

/-! ## Where a type has its body -/

section

variable {fuel : Nat} {c stop : Cursor}

theorem reaches_of_mem_readGroup {α : Type} {form : Form} {read : Cursor → Cursor → Option α}
    {count : Nat} {spec : α} (h : spec ∈ readGroup fuel form read count c) :
    ∃ d e, c.Reaches d ∧ read d e = some spec := by
  induction count generalizing c with
  | zero => cases h
  | succ count ih =>
    rw [readGroup] at h
    generalize hhead : List.head? _ = first at h
    rcases first with _ | ⟨d, e⟩
    · cases h
    rcases List.mem_append.mp h with h | h
    · exact ⟨c, d, .refl c, Option.mem_toList.mp h⟩
    · obtain ⟨ds, hds, hd⟩ := List.mem_filterMap.mp (List.mem_of_head? hhead)
      obtain ⟨d', e', hreach, hread⟩ := ih h
      split at hd
      · cases hd
        exact ⟨d', e', (reaches_of_mem_readings hds e (by simp)).trans hreach, hread⟩
      · cases hd

theorem reaches_of_mem_readSpecs {α : Type} {form : Form}
    {read : Bool → Cursor → Cursor → Option α} {spec : α}
    (h : spec ∈ readSpecs fuel form read c stop) :
    ∃ grouped d e, c.Reaches d ∧ read grouped d e = some spec := by
  rw [readSpecs] at h
  split at h
  · next d ds hd =>
    obtain ⟨e, e', hreach, hread⟩ := reaches_of_mem_readGroup h
    have hcd : c.Reaches d := Form.reaches_of_mem_ends (hd ▸ List.mem_cons_self)
    exact ⟨true, e, e', hcd.trans hreach, hread⟩
  · exact ⟨false, c, stop, .refl c, Option.mem_toList.mp h⟩

theorem shape_of_readTypeSpec {grouped : Bool} {spec : TypeSpec}
    (h : readTypeSpec fuel grouped c stop = some spec) :
    spec.shape = .other ∨ ∃ d, c.Reaches d ∧ spec.shape = readShape fuel d := by
  unfold readTypeSpec at h
  split at h
  · next d e f hparts =>
    cases h
    dsimp only
    split
    · exact .inl rfl
    · exact .inr ⟨e, reaches_of_readingTo hparts e (by simp), rfl⟩
  · split at h
    · next d e f hparts =>
      cases h
      exact .inr ⟨e, reaches_of_readingTo hparts e (by simp), rfl⟩
    · cases h

theorem readFunction_ne_types {specs : List TypeSpec} :
    readFunction fuel c stop ≠ some (.types specs) := by
  unfold readFunction
  split <;> simp

theorem readMethod_ne_types {specs : List TypeSpec} :
    readMethod fuel c stop ≠ some (.types specs) := by
  unfold readMethod
  split
  · split <;> simp
  · simp

theorem shape_of_readDeclaration {specs : List TypeSpec} {spec : TypeSpec}
    (h : readDeclaration fuel c stop = .types specs) (hspec : spec ∈ specs) :
    spec.shape = .other ∨ ∃ d, c.Reaches d ∧ spec.shape = readShape fuel d := by
  unfold readDeclaration at h
  dsimp only at h
  split at h
  · next d hd =>
    cases h
    obtain ⟨grouped, e, e', hreach, hread⟩ := reaches_of_mem_readSpecs hspec
    have hcd : c.Reaches d := Form.reaches_of_mem_ends (List.mem_of_head? hd)
    rcases shape_of_readTypeSpec hread with hother | ⟨f, hf, hshape⟩
    · exact .inl hother
    · exact .inr ⟨f, (hcd.trans hreach).trans hf, hshape⟩
  · cases h
  · cases h
  · rcases hread : (readFunction fuel c stop).or (readMethod fuel c stop) with _ | read
    · rw [hread] at h
      cases h
    · rw [hread, Option.getD_some] at h
      rcases Option.or_eq_some_iff.mp (h ▸ hread) with hfunction | ⟨-, hmethod⟩
      · exact absurd hfunction readFunction_ne_types
      · exact absurd hmethod readMethod_ne_types
  · cases h

end

/-! ## Members and declarations -/

variable {fuel : Nat} {c : Cursor}

theorem ChildrenFrom.of_reaches {d : Cursor} {children : List Symbol} (hcd : c.Reaches d)
    (h : ChildrenFrom fuel d children) : ChildrenFrom fuel c children := by
  cases h with
  | none => exact .none
  | fields hbrace hlayout hclose hitems =>
    obtain ⟨e, f, hreach, hbrace⟩ := hbrace
    exact .fields ⟨e, f, hcd.trans hreach, hbrace⟩ hlayout hclose hitems
  | methods hbrace hlayout hclose hitems =>
    obtain ⟨e, f, hreach, hbrace⟩ := hbrace
    exact .methods ⟨e, f, hcd.trans hreach, hbrace⟩ hlayout hclose hitems

/-- The members that are read behind a word and a brace are documented by the runs above them. -/
theorem documentedItems_of_body {form : Form} {α : Type} {member : Cursor → Cursor → α}
    (symbols : α → Option String → List Symbol) {word : String} {d e : Cursor}
    {members : List (Piece α)} (hc : c.Counted)
    (hbody : [d, e] ∈ readings fuel [.word word, Form.punctuation "\x7b"] c)
    (hmembers : memberPieces fuel form member e.left e = some members)
    (hdoc : ∀ v doc, ∀ s ∈ symbols v doc, s.doc = doc) :
    ∃ brace spans d, OpensBody fuel word c brace ∧ Layout fuel form brace.next spans d ∧
      d.rest.head? = some '\x7d' ∧
      DocumentedItems (some brace) (SharesDoc fun start stop => symbols (member start stop)) []
        spans ((documented members).flatMap fun p => symbols p.1 p.2) := by
  have hcounted := (reaches_of_mem_readings hbody e (by simp)).counted hc
  have hparts : d ∈ (Form.word word).ends fuel c ∧ e ∈ (Form.punctuation "\x7b").ends fuel d := by
    simpa [readings] using hbody
  obtain ⟨hbrace, rfl⟩ := Form.exists_of_mem_punctuation rfl hparts.2
  have hopening : ∀ brace, some d.skip = some brace → brace.row ≤ d.skip.next.row := by
    rintro _ ⟨⟩
    exact Cursor.row_le_next _
  have hshares (start stop : Cursor) (doc : Option String) (_ : d.skip.next.Reaches start) :
      SharesDoc (fun start stop => symbols (member start stop)) start stop doc
        (symbols (member start stop) doc) := ⟨rfl, hdoc (member start stop) doc⟩
  obtain ⟨spans, f, hlayout, hclose, hitems⟩ :=
    (laidOut_of_memberPieces hcounted hmembers).documentedItems hopening hshares
  exact ⟨d.skip, spans, f, ⟨c, d, .refl c, hparts.1, rfl, hbrace⟩, hlayout, hclose, hitems⟩

theorem readShape_eq_struct {members : List (Piece Field)}
    (h : readShape fuel c = .struct members) :
    ∃ d e, [d, e] ∈ readings fuel [.word "struct", Form.punctuation "\x7b"] c ∧
      members = (memberPieces fuel field (readField fuel) e.left e).getD [] := by
  unfold readShape at h
  split at h
  · next d e rest hbody =>
    cases h
    exact ⟨d, e, hbody ▸ List.mem_cons_self, rfl⟩
  · split at h <;> cases h

theorem readShape_eq_interface {members : List (Piece InterfaceMember)}
    (h : readShape fuel c = .interface members) :
    ∃ d e, [d, e] ∈ readings fuel [.word "interface", Form.punctuation "\x7b"] c ∧
      members =
        (memberPieces fuel interfaceElement (readInterfaceMember fuel) e.left e).getD [] := by
  unfold readShape at h
  split at h
  · cases h
  · split at h
    · next d e rest hbody =>
      cases h
      exact ⟨d, e, hbody ▸ List.mem_cons_self, rfl⟩
    · cases h

theorem childrenFrom_readShape {spec : TypeSpec} (doc : Option String) (hc : c.Counted)
    (hshape : spec.shape = readShape fuel c) :
    ChildrenFrom fuel c (spec.symbol doc).children := by
  rw [TypeSpec.symbol]
  split
  · next members hstruct =>
    obtain ⟨d, e, hbody, rfl⟩ := readShape_eq_struct (hshape.symm.trans hstruct)
    rcases hmembers : memberPieces fuel field (readField fuel) e.left e with _ | members
    · exact .none
    obtain ⟨brace, spans, f, hbrace, hlayout, hclose, hitems⟩ :=
      documentedItems_of_body Field.symbols hc hbody hmembers fun v doc s => Field.doc_of_mem
    exact .fields hbrace hlayout hclose hitems
  · next members hinterface =>
    obtain ⟨d, e, hbody, rfl⟩ := readShape_eq_interface (hshape.symm.trans hinterface)
    rcases hmembers : memberPieces fuel interfaceElement (readInterfaceMember fuel) e.left e with
      _ | members
    · exact .none
    obtain ⟨brace, spans, f, hbrace, hlayout, hclose, hitems⟩ :=
      documentedItems_of_body InterfaceMember.symbols hc hbody hmembers
        fun v doc s => InterfaceMember.doc_of_mem
    exact .methods hbrace hlayout hclose hitems
  · exact .none

theorem declaresAt_readDeclaration {stop : Cursor} (doc : Option String) (hc : c.Counted) :
    DeclaresAt fuel c stop doc ((readDeclaration fuel c stop).symbols doc) := by
  refine ⟨⟨rfl, fun s => Declaration.doc_of_mem⟩, fun s hs => ?_⟩
  rcases Declaration.children_of_mem hs with hnil | ⟨specs, spec, htypes, hspec, rfl⟩
  · rw [hnil]
    exact .none
  rcases shape_of_readDeclaration htypes hspec with hother | ⟨d, hd, hshape⟩
  · rw [TypeSpec.symbol, hother]
    exact .none
  · exact (childrenFrom_readShape doc (hd.counted hc) hshape).of_reaches hd

/-! ## Outlines -/

theorem diagnosis_ne_nil (text : List Char) (path : String) : diagnosis text path ≠ [] := by
  rw [diagnosis]
  split
  · exact List.cons_ne_nil _ _
  · next htold => exact fun hnil => htold (List.map_eq_nil_iff.mp hnil)

theorem exists_file_of_goOutline {source path : String}
    (h : (goOutline source path).hasErrors = false) :
    ∃ file, File.read? source.toList = some file ∧
      (goOutline source path).symbols = file.symbols := by
  rw [goOutline] at h ⊢
  split
  · next file hfile => exact ⟨file, hfile, rfl⟩
  · next hfile =>
    rw [hfile, Outline.hasErrors] at h
    exact absurd (List.isEmpty_iff.mp (by simpa using h)) (diagnosis_ne_nil _ _)

/-- The symbols of a source without mistakes are those of the declarations that it is laid out in,
one after another. Each declaration is documented by the run of comments above it, and so is each
member of a struct or an interface in its body. -/
theorem goOutline_documented (source path : String)
    (h : (goOutline source path).hasErrors = false) :
    ∃ spans d, Layout (depthOf source.toList) (.alt topDeclaration topStatement)
        (.ofText source.toList) spans d ∧ d.rest = [] ∧
      DocumentedItems none (DeclaresAt (depthOf source.toList)) [] spans
        (goOutline source path).symbols := by
  obtain ⟨file, hfile, hsymbols⟩ := exists_file_of_goOutline h
  obtain ⟨pieces, hpieces, rfl⟩ := Option.map_eq_some_iff.mp hfile
  have hcounted := Cursor.counted_ofText source.toList
  have hopening : ∀ brace : Cursor, none = some brace →
      brace.row ≤ (Cursor.ofText source.toList).row := by
    rintro brace ⟨⟩
  have hdeclares (start stop : Cursor) (doc : Option String)
      (hstart : (Cursor.ofText source.toList).Reaches start) :
      DeclaresAt (depthOf source.toList) start stop doc
        ((readDeclaration (depthOf source.toList) start stop).symbols doc) :=
    declaresAt_readDeclaration doc (hstart.counted hcounted)
  rw [hsymbols]
  exact (laidOut_of_topPieces hcounted hpieces).documentedItems hopening hdeclares

def commentedBrace : String :=
  "package p\n\ntype S struct \x7b // note\n\tA int\n\x7d\n"

theorem commentedBrace_doc :
    ∃ s ∈ (goOutline commentedBrace "s.go").symbols, ∃ t ∈ s.children, t.doc = some "note" := by
  decide +kernel

theorem commentedBrace_documented :
    (goOutline commentedBrace "s.go").hasErrors = false ∧
      ∃ spans d, Layout (depthOf commentedBrace.toList) (.alt topDeclaration topStatement)
          (.ofText commentedBrace.toList) spans d ∧ d.rest = [] ∧
        DocumentedItems none (DeclaresAt (depthOf commentedBrace.toList)) [] spans
          (goOutline commentedBrace "s.go").symbols := by
  have herrors : (goOutline commentedBrace "s.go").hasErrors = false := by decide +kernel
  exact ⟨herrors, goOutline_documented commentedBrace "s.go" herrors⟩

/-- A comment behind an opening brace may document what follows, even in a source without further
comments. -/
theorem brace_comment_documents :
    ¬∀ (source path : String) (code note rest : List Char),
      source.toList = code ++ '\x7b' :: ' ' :: '/' :: '/' :: note ++ '\n' :: rest →
      '/' ∉ code → '\n' ∉ note → '/' ∉ rest →
      ∀ s ∈ (goOutline source path).symbols, ∀ t ∈ s :: s.children, t.doc = none := by
  intro h
  have hnone := h commentedBrace "s.go" "package p\n\ntype S struct ".toList " note".toList
    "\tA int\n\x7d\n".toList (by decide) (by decide) (by decide)
    (by decide)
  obtain ⟨s, hs, t, ht, hdoc⟩ := commentedBrace_doc
  exact absurd ((hnone s hs t (List.mem_cons_of_mem s ht)).symm.trans hdoc) (by simp)

end SourceBundle.Go
