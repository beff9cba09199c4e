import SourceBundle.Proofs.DiskTree
import SourceBundle.Proofs.DocumentGathering

/-!
# One document behind both formats

What a reader is shown of a bundle is the same in headed text and in JSON: the drawing, the files
with what they hold, and of every outlined file either its mistakes or its symbols. Each format is a
rendering of that, and each section of it is what it is whatever the other sections are.
-/

namespace SourceBundle

/-! ## What is shown -/

abbrev NonemptyText := { text : String // text ≠ "" }

inductive ShownSymbol where
  | symbol (kind : SymbolKind) (name : String) (signature : Option NonemptyText)
      (doc : Option String) (children : List ShownSymbol)

/-- An outlined file shows its mistakes if it has any, and else its symbols. -/
inductive ShownOutline where
  | errors (first : String) (rest : List String)
  | symbols (forest : List ShownSymbol)

structure ShownDocument where
  timestamp : String
  tree : Option String
  contents : Option (List (String × Content))
  outlines : Option (List (String × ShownOutline))

/-! ## Headed text -/

namespace ShownSymbol

def signatureText : Option NonemptyText → String
  | none => ""
  | some signature => " (" ++ signature.1 ++ ")"

mutual

def text (depth : Nat) : ShownSymbol → String
  | .symbol kind name signature doc children =>
    let indent := String.ofList (List.replicate (2 * depth) ' ')
    indent ++ kind.name.toUpper ++ ": " ++ name ++ signatureText signature ++ "\n" ++
      Document.docText indent doc ++ textAll (depth + 1) children
termination_by structural s => s

def textAll (depth : Nat) : List ShownSymbol → String
  | [] => ""
  | s :: ss => s.text depth ++ textAll depth ss
termination_by structural ss => ss

end

mutual

def json : ShownSymbol → JsonValue
  | .symbol kind name signature doc children =>
    .record ([("type", .text kind.name), ("name", .text name)] ++
      Document.textField "signature" (signature.map (·.1)) ++
      Document.textField "documentation" doc ++ Document.listField "children" (jsonAll children))
termination_by structural s => s

def jsonAll : List ShownSymbol → List JsonValue
  | [] => []
  | s :: ss => s.json :: jsonAll ss
termination_by structural ss => ss

end

end ShownSymbol

namespace ShownOutline

def text : ShownOutline → String
  | .errors first rest => "Parsing errors:\n" ++ String.intercalate "\n" (first :: rest) ++ "\n"
  | .symbols forest => ShownSymbol.textAll 0 forest

def json (path : String) : ShownOutline → JsonValue
  | .errors first rest =>
    .record [("path", .text path), ("errors", .list ((first :: rest).map .text))]
  | .symbols forest =>
    .record (("path", .text path) :: Document.listField "symbols" (ShownSymbol.jsonAll forest))

end ShownOutline

namespace ShownDocument

def outlineSection : Option (List (String × ShownOutline)) → String
  | none => ""
  | some outlines =>
    "## Language-Specific Outlines\n\n" ++
      String.join (outlines.map fun (path, o) => "\n### File: " ++ path ++ "\n" ++ o.text)

def text (d : ShownDocument) : String :=
  "## Generated with " ++ Document.generator ++ " at: " ++ d.timestamp ++ "\n\n" ++
    Document.treeSection d.tree ++ outlineSection d.outlines ++ Document.contentSection d.contents

def json (d : ShownDocument) : JsonValue :=
  .record ([("timestamp", .text d.timestamp)] ++ Document.textField "tree" d.tree ++
    Document.listField "files"
      ((d.contents.getD []).map fun (path, c) => Document.contentJson path c) ++
    Document.listField "outlines" ((d.outlines.getD []).map fun (path, o) => o.json path))

end ShownDocument

/-! ## What a document shows -/

/-- An empty signature is none. -/
def saying (text : Option String) : Option NonemptyText :=
  text.bind fun t => if h : t = "" then none else some ⟨t, h⟩

namespace Symbol

mutual

def shown : Symbol → ShownSymbol
  | .symbol kind name signature doc children =>
    .symbol kind name (saying signature) doc (shownAll children)
termination_by structural s => s

def shownAll : List Symbol → List ShownSymbol
  | [] => []
  | s :: ss => s.shown :: shownAll ss
termination_by structural ss => ss

end

end Symbol

def Outline.shown (o : Outline) : ShownOutline :=
  match o.errors with
  | [] => .symbols (Symbol.shownAll o.symbols)
  | first :: rest => .errors first rest

def Outline.Exclusive (o : Outline) : Prop :=
  o.errors ≠ [] → o.symbols = []

def Document.shown (d : Document) : ShownDocument :=
  ⟨d.timestamp, d.tree, d.contents,
    d.outlines.map fun outlines => outlines.map fun (path, o) => (path, o.shown)⟩

@[simp] theorem Document.shown_timestamp (d : Document) : d.shown.timestamp = d.timestamp := rfl

@[simp] theorem Document.shown_tree (d : Document) : d.shown.tree = d.tree := rfl

@[simp] theorem Document.shown_contents (d : Document) : d.shown.contents = d.contents := rfl

theorem SymbolKind.heading_eq (kind : SymbolKind) : kind.heading = kind.name.toUpper := by
  cases kind <;> decide +kernel

theorem map_saying (text : Option String) :
    (saying text).map (·.1) = text.filter (· != "") := by
  cases text with
  | none => rfl
  | some t => by_cases h : t = "" <;> simp [saying, Option.filter, h]

theorem signatureText_saying (signature : Option String) :
    ShownSymbol.signatureText (saying signature) =
      match signature.filter (· != "") with
      | some signature => s!" ({signature})"
      | none => "" := by
  rw [← map_saying]
  cases saying signature <;> rfl

namespace Document

mutual

theorem symbolTreeText_eq (depth : Nat) : (s : Symbol) → symbolTreeText depth s = s.shown.text depth
  | .symbol kind name signature doc children => by
    rewrite [symbolTreeText, Symbol.shown, ShownSymbol.text, symbolText,
      symbolsText_eq (depth + 1) children, signatureText_saying, SymbolKind.heading_eq]
    rfl

theorem symbolsText_eq (depth : Nat) :
    (ss : List Symbol) → symbolsText depth ss = ShownSymbol.textAll depth (Symbol.shownAll ss)
  | [] => rfl
  | s :: ss => by
    rw [symbolsText, Symbol.shownAll, ShownSymbol.textAll, symbolTreeText_eq depth s,
      symbolsText_eq depth ss]

end

mutual

theorem symbolJson_eq : (s : Symbol) → symbolJson s = s.shown.json
  | .symbol kind name signature doc children => by
    rw [symbolJson, shownSignature, Symbol.shown, ShownSymbol.json, map_saying,
      symbolsJson_eq children]

theorem symbolsJson_eq : (ss : List Symbol) → symbolsJson ss = ShownSymbol.jsonAll (Symbol.shownAll ss)
  | [] => rfl
  | s :: ss => by
    rw [symbolsJson, Symbol.shownAll, ShownSymbol.jsonAll, symbolJson_eq s, symbolsJson_eq ss]

end

theorem outlineText_eq (o : Outline) : outlineText o = o.shown.text := by
  rw [outlineText, Outline.hasErrors, Outline.shown]
  cases o.errors with
  | nil => exact symbolsText_eq 0 o.symbols
  | cons first rest => rfl

theorem outlineJson_eq (path : String) {o : Outline} (h : o.Exclusive) :
    outlineJson path o = o.shown.json path := by
  rw [outlineJson, Outline.shown]
  cases herrors : o.errors with
  | nil =>
    rw [ShownOutline.json, symbolsJson_eq]
    simp [listField]
  | cons first rest =>
    have hsymbols : o.symbols = [] := h (by simp [herrors])
    rw [ShownOutline.json, hsymbols]
    rfl

theorem outlineSection_eq (outlines : List (String × Outline)) :
    outlineSection (some outlines) =
      ShownDocument.outlineSection (some (outlines.map fun (path, o) => (path, o.shown))) := by
  have hparts : outlines.map (fun (path, o) => "\n### File: " ++ path ++ "\n" ++ outlineText o) =
      (outlines.map fun (path, o) => (path, o.shown)).map
        fun (path, o) => "\n### File: " ++ path ++ "\n" ++ o.text := by
    rw [List.map_map]
    refine List.map_congr_left ?_
    rintro ⟨path, o⟩ _
    simp only [Function.comp_apply, outlineText_eq]
  exact congrArg (fun parts => "## Language-Specific Outlines\n\n" ++ String.join parts) hparts

theorem renderText_eq (d : Document) : d.renderText = d.shown.text := by
  have houtlines : outlineSection d.outlines = ShownDocument.outlineSection d.shown.outlines := by
    rw [shown]
    cases d.outlines with
    | none => rfl
    | some outlines => exact outlineSection_eq outlines
  exact congrArg (fun part => "## Generated with " ++ generator ++ " at: " ++ d.timestamp ++ "\n\n" ++
    treeSection d.tree ++ part ++ contentSection d.contents) houtlines

theorem toJson_eq {d : Document} (h : ∀ outlines ∈ d.outlines, ∀ o ∈ outlines, o.2.Exclusive) :
    d.toJson = d.shown.json := by
  have houtlines : (d.outlines.getD []).map (fun (path, o) => outlineJson path o) =
      (d.shown.outlines.getD []).map fun (path, o) => o.json path := by
    rw [shown]
    cases houtlines : d.outlines with
    | none => rfl
    | some outlines =>
      simp only [Option.getD_some, Option.map_some, List.map_map]
      exact List.map_congr_left fun o ho => outlineJson_eq o.1 (h outlines houtlines o ho)
  rw [toJson, ShownDocument.json, houtlines, shown_timestamp, shown_tree, shown_contents]

end Document

/-! ## What is gathered -/

/-- No outliner returns symbols and mistakes at once. -/
def OutlineRegistry.Exclusive (r : OutlineRegistry) : Prop :=
  ∀ handler ∈ r.handlers, ∀ text path outline,
    handler.2.outline text path = .ok outline → outline.Exclusive

theorem OutlineRegistry.Exclusive.of_outlinerFor? {r : OutlineRegistry} (h : r.Exclusive)
    {path : String} {outliner : Outliner} (houtliner : r.outlinerFor? path = some outliner)
    {text : String} {outline : Outline} (houtline : outliner.outline text path = .ok outline) :
    outline.Exclusive := by
  rw [outlinerFor?, Option.bind_eq_some_iff] at houtliner
  obtain ⟨ext, _, hfound⟩ := houtliner
  obtain ⟨place, hlookup, hplace⟩ := Option.bind_eq_some_iff.mp hfound
  obtain ⟨front, back, hsplit, _⟩ := List.lookup_eq_some_iff.mp hlookup
  have hhandler : ("." ++ ext, outliner) ∈ r.handlers :=
    List.mem_filterMap.mpr ⟨("." ++ ext, place), by simp [hsplit], by simp [hplace]⟩
  exact h _ hhandler text path outline houtline

namespace Document

variable {fs : FileSystem} {registry : OutlineRegistry} {options : OutputOptions}
  {timestamp : String} {entries : List PathEntry}

/-- What an outliner finds in a file's whole text. -/
structure Outlined (fs : FileSystem) (registry : OutlineRegistry) (entry : PathEntry)
    (found : String × Outline) (taker : Outliner) (text : String) : Prop where
  path : found.1 = entry.relative
  takes : registry.outlinerFor? entry.path = some taker
  read : Content.load fs entry.path false = .ok (.text text)
  outline : taker.outline text entry.path = .ok found.2

theorem exists_text_of_load {path : String} {content : Content}
    (h : Content.load fs path false = .ok content) : ∃ text, content = .text text := by
  rw [Content.load] at h
  cases hread : fs.read path with
  | error cause => simp [hread] at h
  | ok bytes =>
    simp only [hread, Except.ok.injEq, Content.ofBytes, Bool.false_and, Bool.false_eq_true,
      if_false] at h
    split at h
    · exact ⟨_, h.symm⟩
    · exact ⟨_, h.symm⟩

theorem outlineOf?_eq_ok_none {entry : PathEntry}
    (h : outlineOf? fs registry entry = .ok none) : registry.isSupported entry.path = false := by
  rw [outlineOf?] at h
  rw [OutlineRegistry.isSupported]
  cases houtliner : registry.outlinerFor? entry.path with
  | none => rfl
  | some taker =>
    simp only [houtliner, bind_eq_ok_iff, pure_eq_ok_iff] at h
    obtain ⟨_, _, _, _, hsome⟩ := h
    cases hsome

theorem outlineOf?_eq_ok_some {entry : PathEntry} {found : String × Outline}
    (h : outlineOf? fs registry entry = .ok (some found)) :
    ∃ taker text, Outlined fs registry entry found taker text := by
  rw [outlineOf?] at h
  cases houtliner : registry.outlinerFor? entry.path with
  | none => simp [houtliner] at h
  | some taker =>
    simp only [houtliner, bind_eq_ok_iff, pure_eq_ok_iff, mapError_eq_ok_iff] at h
    obtain ⟨content, hload, outline, houtline, heq⟩ := h
    obtain ⟨text, rfl⟩ := exists_text_of_load hload
    cases heq
    exact ⟨taker, text, rfl, houtliner, hload, houtline⟩

theorem outlined_of_results {fileEntries : List PathEntry}
    {results : List (Option (String × Outline))}
    (h : List.Forall₂ (fun entry result => outlineOf? fs registry entry = .ok result) fileEntries
      results) :
    List.Forall₂ (fun entry found => ∃ taker text, Outlined fs registry entry found taker text)
      (fileEntries.filter fun entry => registry.isSupported entry.path) (results.filterMap id) := by
  induction h with
  | nil => exact .nil
  | @cons entry result _ _ hresult _ ih =>
    cases result with
    | none =>
      rw [List.filter_cons_of_neg (by simp [outlineOf?_eq_ok_none hresult])]
      exact ih
    | some found =>
      obtain ⟨taker, text, houtlined⟩ := outlineOf?_eq_ok_some hresult
      have hsupported : registry.isSupported entry.path = true := by
        simp [OutlineRegistry.isSupported, houtlined.takes]
      rw [List.filter_cons_of_pos (by simpa using hsupported)]
      exact .cons ⟨taker, text, houtlined⟩ ih

theorem outlined_of_gatherOutlines {outlines : List (String × Outline)}
    (h : gatherOutlines fs registry entries = .ok outlines) :
    List.Forall₂ (fun entry found => ∃ taker text, Outlined fs registry entry found taker text)
      ((files entries).filter fun entry => registry.isSupported entry.path) outlines := by
  rw [gatherOutlines, bind_eq_ok_iff] at h
  obtain ⟨results, hresults, heq⟩ := h
  cases heq
  exact outlined_of_results (mapM_eq_ok_iff.mp hresults)

end Document

/-! ## The shown document -/

/-- A section is there exactly when it is wanted, and then holds what it should. -/
def Wanted {α : Type} (wanted : Bool) (holds : α → Prop) : Option α → Prop
  | none => wanted = false
  | some found => wanted = true ∧ holds found

theorem Wanted.eq {α : Type} {wanted : Bool} {holds : α → Prop} {found found' : Option α}
    (hunique : ∀ a b, holds a → holds b → a = b) (h : Wanted wanted holds found)
    (h' : Wanted wanted holds found') : found' = found := by
  cases found with
  | none =>
    cases found' with
    | none => rfl
    | some => simp_all [Wanted]
  | some a =>
    cases found' with
    | none => simp_all [Wanted]
    | some b => rw [hunique a b h.2 h'.2]

def ShowsContent (fs : FileSystem) (skipBinary : Bool) (entry : PathEntry)
    (shown : String × Content) : Prop :=
  shown.1 = entry.relative ∧ Content.load fs entry.path skipBinary = .ok shown.2

def ShowsOutline (fs : FileSystem) (registry : OutlineRegistry) (entry : PathEntry)
    (shown : String × ShownOutline) : Prop :=
  ∃ found taker text, Document.Outlined fs registry entry found taker text ∧
    shown = (found.1, found.2.shown)

/-- The document shows what is wanted of the entries, files in the order in which they are listed. -/
structure ShownDocument.Reports (fs : FileSystem) (registry : OutlineRegistry)
    (options : OutputOptions) (timestamp : String) (entries : List PathEntry)
    (d : ShownDocument) : Prop where
  timestamp : d.timestamp = timestamp
  tree : Wanted options.tree (· = TreeNode.renderEntries options.sizes entries) d.tree
  contents : Wanted options.dump
    (List.Forall₂ (ShowsContent fs options.skipBinary) (Document.files entries)) d.contents
  outlines : Wanted options.outline
    (List.Forall₂ (ShowsOutline fs registry)
      ((Document.files entries).filter fun entry => registry.isSupported entry.path)) d.outlines

section

variable {fs : FileSystem} {registry : OutlineRegistry} {options options' : OutputOptions}
  {timestamp : String} {entries : List PathEntry}

theorem wanted_of_optional {ε α : Type} {wanted : Bool} {gather : Except ε α} {found : Option α}
    {holds : α → Prop} (h : Document.optional wanted gather = .ok found)
    (hgather : ∀ a, gather = .ok a → holds a) : Wanted wanted holds found := by
  rw [Document.optional_eq_ok_iff] at h
  cases wanted with
  | false => exact h ▸ rfl
  | true =>
    obtain ⟨a, ha, rfl⟩ := h
    exact ⟨rfl, hgather a ha⟩

theorem rightUnique_showsContent (skipBinary : Bool) :
    Relator.RightUnique (ShowsContent fs skipBinary) := by
  rintro entry ⟨path, content⟩ ⟨path', content'⟩ ⟨hpath, hload⟩ ⟨hpath', hload'⟩
  simp_all

theorem rightUnique_showsOutline : Relator.RightUnique (ShowsOutline fs registry) := by
  rintro entry shown shown' ⟨found, taker, text, h, rfl⟩ ⟨found', taker', text', h', rfl⟩
  obtain rfl : taker = taker' := Option.some.inj (h.takes.symm.trans h'.takes)
  obtain rfl : text = text' := by simpa using h.read.symm.trans h'.read
  have houtline : found.2 = found'.2 := Except.ok.inj (h.outline.symm.trans h'.outline)
  rw [h.path, h'.path, houtline]

/-- What is gathered is what is shown. -/
theorem Document.reports_of_gather {d : Document}
    (h : gather fs registry options timestamp entries = .ok d) :
    d.shown.Reports fs registry options timestamp entries := by
  obtain ⟨outlines, contents, houtlines, hcontents, rfl⟩ := gather_eq_ok_iff.mp h
  refine ⟨rfl, ?_, wanted_of_optional hcontents fun _ => gatherContents_eq_ok_iff.mp, ?_⟩
  · rw [shown_tree, drawing]
    cases options.tree with
    | false => exact rfl
    | true => exact ⟨rfl, rfl⟩
  · have hwanted := wanted_of_optional houtlines fun _ => outlined_of_gatherOutlines
    cases outlines with
    | none => exact hwanted
    | some outlines =>
      refine ⟨hwanted.1, List.forall₂_map_right_iff.mpr (hwanted.2.imp ?_)⟩
      rintro entry found ⟨taker, text, houtlined⟩
      exact ⟨found, taker, text, houtlined, rfl⟩

theorem Document.exclusive_of_gather {d : Document} (hregistry : registry.Exclusive)
    (h : gather fs registry options timestamp entries = .ok d) :
    ∀ outlines ∈ d.outlines, ∀ o ∈ outlines, o.2.Exclusive := by
  obtain ⟨outlines?, contents, houtlines, _, rfl⟩ := gather_eq_ok_iff.mp h
  rintro outlines houts o ho
  have hwanted := wanted_of_optional houtlines fun _ => outlined_of_gatherOutlines
  rw [Option.mem_def] at houts
  subst houts
  obtain ⟨entry, taker, text, houtlined⟩ := exists_of_forall₂ hwanted.2 ho
  exact hregistry.of_outlinerFor? houtlined.takes houtlined.outline

/-- Both formats gather the same. -/
theorem Document.generate_format_eq_ok_iff (format : OutputFormat) {output : String} :
    generate fs registry { options with format := format } timestamp entries = .ok output ↔
      ∃ d, gather fs registry options timestamp entries = .ok d ∧ d.render format = output := by
  rw [generate_eq_ok_iff]
  refine exists_congr fun d => and_congr_left fun _ => ?_
  rw [gather_eq_ok_iff, gather_eq_ok_iff]
  rfl

/-- Both formats succeed, and write the one document. -/
structure ShownDocument.Written (fs : FileSystem) (registry : OutlineRegistry)
    (options : OutputOptions) (timestamp : String) (entries : List PathEntry)
    (d : ShownDocument) : Prop where
  text : Document.generate fs registry { options with format := .text } timestamp entries =
    .ok d.text
  json : Document.generate fs registry { options with format := .json } timestamp entries =
    .ok d.json.pretty
  reports : d.Reports fs registry options timestamp entries

theorem Document.written_of_gather {d : Document} (hregistry : registry.Exclusive)
    (h : gather fs registry options timestamp entries = .ok d) :
    d.shown.Written fs registry options timestamp entries := by
  refine ⟨?_, ?_, reports_of_gather h⟩
  · exact (generate_format_eq_ok_iff .text).mpr ⟨d, h, renderText_eq d⟩
  · have hjson : d.renderJson = d.shown.json.pretty := by
      rw [renderJson, toJson_eq (exclusive_of_gather hregistry h)]
    exact (generate_format_eq_ok_iff .json).mpr ⟨d, h, hjson⟩

theorem ShownDocument.Reports.sections_eq {d d' : ShownDocument}
    (h : d.Reports fs registry options timestamp entries)
    (h' : d'.Reports fs registry options' timestamp entries)
    (hskip : options'.skipBinary = options.skipBinary) (hsizes : options'.sizes = options.sizes) :
    (options'.tree = options.tree → d'.tree = d.tree) ∧
      (options'.dump = options.dump → d'.contents = d.contents) ∧
      (options'.outline = options.outline → d'.outlines = d.outlines) := by
  refine ⟨fun htree => ?_, fun hdump => ?_, fun houtline => ?_⟩
  · have htree' := h'.tree
    rw [hsizes, htree] at htree'
    exact h.tree.eq (fun _ _ ha hb => ha.trans hb.symm) htree'
  · have hcontents' := h'.contents
    rw [hskip, hdump] at hcontents'
    exact h.contents.eq (fun _ _ => List.right_unique_forall₂' (rightUnique_showsContent _)) hcontents'
  · have houtlines' := h'.outlines
    rw [houtline] at houtlines'
    exact h.outlines.eq (fun _ _ => List.right_unique_forall₂' rightUnique_showsOutline) houtlines'

/-- Text and JSON succeed together and are then renderings of one document, whose sections do not
depend on each other. -/
theorem Document.generate_writes_one_document (hregistry : registry.Exclusive)
    (options : OutputOptions) (timestamp : String) (entries : List PathEntry) :
    ((∃ text, generate fs registry { options with format := .text } timestamp entries = .ok text) ↔
      ∃ json, generate fs registry { options with format := .json } timestamp entries = .ok json) ∧
    (∀ text, generate fs registry { options with format := .text } timestamp entries = .ok text →
      ∃ d : ShownDocument, d.Written fs registry options timestamp entries) ∧
    ∀ options', options'.skipBinary = options.skipBinary → options'.sizes = options.sizes →
      ∀ d d' : ShownDocument, d.Written fs registry options timestamp entries →
        d'.Written fs registry options' timestamp entries →
          (options'.tree = options.tree → d'.tree = d.tree) ∧
          (options'.dump = options.dump → d'.contents = d.contents) ∧
          (options'.outline = options.outline → d'.outlines = d.outlines) := by
  have hwritten : ∀ {format output},
      generate fs registry { options with format := format } timestamp entries = .ok output →
        ∃ d : ShownDocument, d.Written fs registry options timestamp entries := by
    intro format output h
    obtain ⟨d, hgather, _⟩ := (generate_format_eq_ok_iff format).mp h
    exact ⟨d.shown, written_of_gather hregistry hgather⟩
  refine ⟨⟨?_, ?_⟩, fun text => hwritten, ?_⟩
  · rintro ⟨text, h⟩
    obtain ⟨d, hd⟩ := hwritten h
    exact ⟨_, hd.json⟩
  · rintro ⟨json, h⟩
    obtain ⟨d, hd⟩ := hwritten h
    exact ⟨_, hd.text⟩
  · intro options' hskip hsizes d d' hd hd'
    exact hd.reports.sections_eq hd'.reports hskip hsizes

end

/-! ### A small project -/

def mainFinder : Outliner where
  extensions := [".go"]
  outline text path :=
    if text = "" then .ok ⟨path, [], ["no package"]⟩
    else .ok ⟨path, [.symbol .function "main" (some "func main()") none []], []⟩

def mainRegistry : OutlineRegistry :=
  OutlineRegistry.register {} mainFinder

theorem mainRegistry_exclusive : mainRegistry.Exclusive := by
  have hhandlers : mainRegistry.handlers = [(".go", mainFinder)] := rfl
  intro handler hhandler text path outline h herrors
  rw [hhandlers, List.mem_singleton] at hhandler
  rw [hhandler, mainFinder] at h
  dsimp only at h
  split at h
  · rw [← Except.ok.inj h]
  · rw [← Except.ok.inj h] at herrors
    exact absurd rfl herrors

theorem small_project_written_with_and_without_tree :
    ∃ d d' : ShownDocument,
      d.Written .smallProject mainRegistry { outline := true } "now"
        [.file "/home/project/src/main.go" "project/src/main.go" (some 1)] ∧
      d'.Written .smallProject mainRegistry { outline := true, tree := false } "now"
        [.file "/home/project/src/main.go" "project/src/main.go" (some 1)] ∧
      d'.contents = d.contents ∧ d'.outlines = d.outlines := by
  have hwith : Document.generate .smallProject mainRegistry { outline := true, format := .text }
      "now" [.file "/home/project/src/main.go" "project/src/main.go" (some 1)] =
        .ok ("## Generated with sourcepack at: now\n\n" ++
          "## File Tree\n\nproject/\n└── src/\n    └── main.go\n\n" ++
          "## Language-Specific Outlines\n\n\n### File: project/src/main.go\n" ++
          "FUNCTION: main (func main())\n" ++
          "## File Contents\n\n--- File: project/src/main.go\np\n\n") := by
    decide +kernel
  have hwithout : Document.generate .smallProject mainRegistry
      { outline := true, tree := false, format := .text }
      "now" [.file "/home/project/src/main.go" "project/src/main.go" (some 1)] =
        .ok ("## Generated with sourcepack at: now\n\n" ++
          "## Language-Specific Outlines\n\n\n### File: project/src/main.go\n" ++
          "FUNCTION: main (func main())\n" ++
          "## File Contents\n\n--- File: project/src/main.go\np\n\n") := by
    decide +kernel
  obtain ⟨_, hwritten, hsections⟩ := Document.generate_writes_one_document mainRegistry_exclusive
    { outline := true } "now" [.file "/home/project/src/main.go" "project/src/main.go" (some 1)]
  obtain ⟨_, hwritten', _⟩ := Document.generate_writes_one_document mainRegistry_exclusive
    { outline := true, tree := false } "now"
    [.file "/home/project/src/main.go" "project/src/main.go" (some 1)]
  obtain ⟨d, hd⟩ := hwritten _ hwith
  obtain ⟨d', hd'⟩ := hwritten' _ hwithout
  obtain ⟨_, hcontents, houtlines⟩ := hsections { outline := true, tree := false } rfl rfl d d' hd hd'
  exact ⟨d, d', hd, hd', hcontents rfl, houtlines rfl⟩

end SourceBundle
