import SourceBundle.Proofs.DocumentRenderings
import SourceBundle.Proofs.JsonReading

/-!
# What a JSON document tells

Every datum of a document can be taken back from its JSON text: fields that are left out are missing
for one reason only, at every level of the symbols. So runs with the same JSON text gathered the
same.
-/

namespace SourceBundle

/-- What is told of an outlined file. -/
structure OutlinedFile where
  path : String
  errors : List String
  symbols : List ShownSymbol

/-- What a JSON document tells. A section of no files is told like one that is left out. -/
structure DocumentData where
  timestamp : String
  tree : Option String
  files : List (String × Content)
  outlines : List OutlinedFile

/-! ## Taking the data from a record -/

def SymbolKind.ofName? (name : String) : Option SymbolKind :=
  [function, method, struct, interface, type, field, const, var].find? (·.name == name)

namespace Json

def text? : Json → Option String
  | .text s => some s
  | _ => none

def textOf? (fields : List (String × Json)) (name : String) : Option String :=
  (fields.lookup name).bind text?

def optionalText? (fields : List (String × Json)) (name : String) : Option (Option String) :=
  match fields.lookup name with
  | none => some none
  | some v => v.text?.map some

def itemsOf? (fields : List (String × Json)) (name : String) : Option (List Json) :=
  match fields.lookup name with
  | none => some []
  | some (.list values) => some values
  | some _ => none

mutual

def symbol? : Json → Option ShownSymbol
  | .record fields => do
    let kind ← (textOf? fields "type").bind SymbolKind.ofName?
    let name ← textOf? fields "name"
    let signature ← optionalText? fields "signature"
    let doc ← optionalText? fields "documentation"
    let children ← children? fields
    some (.symbol kind name (saying signature) doc children)
  | _ => none
termination_by structural v => v

def children? : List (String × Json) → Option (List ShownSymbol)
  | [] => some []
  | (name, v) :: fields => if name == "children" then symbolList? v else children? fields
termination_by structural fields => fields

def symbolList? : Json → Option (List ShownSymbol)
  | .list values => symbols? values
  | _ => none
termination_by structural v => v

def symbols? : List Json → Option (List ShownSymbol)
  | [] => some []
  | v :: vs => do
    let s ← symbol? v
    let ss ← symbols? vs
    some (s :: ss)
termination_by structural vs => vs

end

def file? : Json → Option (String × Content)
  | .record fields => do
    let path ← textOf? fields "path"
    match fields.lookup "content", fields.lookup "binary" with
    | some (.text content), none => some (path, .text content)
    | none, some (.flag true) => some (path, .binary)
    | _, _ => none
  | _ => none

def outlinedFile? : Json → Option OutlinedFile
  | .record fields => do
    let path ← textOf? fields "path"
    let symbols ← (itemsOf? fields "symbols").bind symbols?
    let errors ← (itemsOf? fields "errors").bind (·.mapM text?)
    some ⟨path, errors, symbols⟩
  | _ => none

def documentData? : Json → Option DocumentData
  | .record fields => do
    let timestamp ← textOf? fields "timestamp"
    let tree ← optionalText? fields "tree"
    let files ← (itemsOf? fields "files").bind (·.mapM file?)
    let outlines ← (itemsOf? fields "outlines").bind (·.mapM outlinedFile?)
    some ⟨timestamp, tree, files, outlines⟩
  | _ => none

end Json

/-- The data that a JSON text tells, if it is the text of a document. -/
def DocumentData.recover? (json : String) : Option DocumentData :=
  (Json.read? json).bind Json.documentData?

/-! ## Fields -/

namespace JsonValue

theorem fieldMeanings_append (fields fields' : List (String × JsonValue)) :
    fieldMeanings (fields ++ fields') = fieldMeanings fields ++ fieldMeanings fields' := by
  induction fields with
  | nil => rfl
  | cons field fields ih => simp [fieldMeanings, ih]

theorem meanings_map {α : Type} (f : α → JsonValue) (l : List α) :
    meanings (l.map f) = l.map fun a => (f a).meaning := by
  induction l with
  | nil => rfl
  | cons a l ih => simp [meanings, ih]

def fieldIf (name : String) (v : Option Json) : List (String × Json) :=
  (v.map fun v => (name, v)).toList

theorem lookup_fieldIf (name other : String) (v : Option Json) :
    (fieldIf name v).lookup other = if other = name then v else none := by
  cases v with
  | none => simp [fieldIf]
  | some v =>
    by_cases h : other = name
    · simp [fieldIf, h]
    · have hbeq : (other == name) = false := beq_eq_false_iff_ne.mpr h
      simp [fieldIf, List.lookup_cons, h, hbeq]

def listIf (values : List Json) : Option Json :=
  if values.isEmpty then none else some (.list values)

theorem fieldMeanings_textField (name : String) (t : Option String) :
    fieldMeanings (Document.textField name t) = fieldIf name (t.map .text) := by
  cases t <;> rfl

theorem fieldMeanings_listField (name : String) (values : List JsonValue) :
    fieldMeanings (Document.listField name values) = fieldIf name (listIf (meanings values)) := by
  cases values <;> rfl

end JsonValue

theorem SymbolKind.ofName?_name (kind : SymbolKind) : ofName? kind.name = some kind := by
  cases kind <;> decide

theorem saying_map (signature : Option NonemptyText) :
    saying (signature.map (·.1)) = signature := by
  cases signature with
  | none => rfl
  | some t => simp [saying, t.2]

namespace Json

open JsonValue

variable {fields : List (String × Json)} {name : String}

theorem optionalText?_of_lookup {t : Option String} (h : fields.lookup name = t.map .text) :
    optionalText? fields name = some t := by
  rw [optionalText?, h]
  cases t <;> rfl

theorem itemsOf?_of_lookup {values : List Json} (h : fields.lookup name = listIf values) :
    itemsOf? fields name = some values := by
  rw [itemsOf?, h]
  cases values <;> rfl

theorem children?_eq (fields : List (String × Json)) :
    children? fields = (itemsOf? fields "children").bind symbols? := by
  induction fields with
  | nil => rfl
  | cons field fields ih =>
    obtain ⟨name, v⟩ := field
    by_cases h : name = "children"
    · rw [children?, if_pos (by simpa using h), itemsOf?, h, List.lookup_cons_self]
      cases v <;> rfl
    · have hbeq : ("children" == name) = false := beq_eq_false_iff_ne.mpr (Ne.symm h)
      rw [children?, if_neg (by simpa using h), ih, itemsOf?, itemsOf?, List.lookup_cons, hbeq]

theorem meaning_symbol (kind : SymbolKind) (name : String) (signature : Option NonemptyText)
    (doc : Option String) (children : List ShownSymbol) :
    (ShownSymbol.symbol kind name signature doc children).json.meaning =
      .record (fieldIf "type" (some (.text kind.name)) ++ fieldIf "name" (some (.text name)) ++
        fieldIf "signature" ((signature.map (·.1)).map .text) ++
        fieldIf "documentation" (doc.map .text) ++
        fieldIf "children" (listIf (meanings (ShownSymbol.jsonAll children)))) := by
  rw [ShownSymbol.json, meaning]
  simp only [fieldMeanings_append, fieldMeanings_textField, fieldMeanings_listField]
  rfl

mutual

theorem symbol?_json : (s : ShownSymbol) → symbol? s.json.meaning = some s
  | .symbol kind name signature doc children => by
    rw [meaning_symbol]
    generalize hfields : fieldIf "type" _ ++ _ ++ _ ++ _ ++ _ = fields
    have htype : textOf? fields "type" = some kind.name := by
      simp [← hfields, textOf?, List.lookup_append, lookup_fieldIf, text?]
    have hname : textOf? fields "name" = some name := by
      simp [← hfields, textOf?, List.lookup_append, lookup_fieldIf, text?]
    have hsignature : optionalText? fields "signature" = some (signature.map (·.1)) :=
      optionalText?_of_lookup (by simp [← hfields, List.lookup_append, lookup_fieldIf])
    have hdoc : optionalText? fields "documentation" = some doc :=
      optionalText?_of_lookup (by simp [← hfields, List.lookup_append, lookup_fieldIf])
    have hchildren : itemsOf? fields "children" = some (meanings (ShownSymbol.jsonAll children)) :=
      itemsOf?_of_lookup (by simp [← hfields, List.lookup_append, lookup_fieldIf])
    simp only [symbol?, children?_eq, htype, hname, hsignature, hdoc, hchildren, Option.bind_some,
      Option.bind_eq_bind, SymbolKind.ofName?_name, symbols?_jsonAll children, saying_map]

theorem symbols?_jsonAll : (ss : List ShownSymbol) →
    symbols? (meanings (ShownSymbol.jsonAll ss)) = some ss
  | [] => rfl
  | s :: ss => by
    rw [ShownSymbol.jsonAll, meanings, symbols?, symbol?_json s, symbols?_jsonAll ss]
    rfl

end

theorem mapM_map {α β γ : Type} {f : β → Option γ} {g : α → β} {r : α → γ}
    (h : ∀ a, f (g a) = some (r a)) (l : List α) : (l.map g).mapM f = some (l.map r) := by
  induction l with
  | nil => rfl
  | cons a l ih => simp [h a, ih]

theorem file?_contentJson (path : String) (c : Content) :
    file? (Document.contentJson path c).meaning = some (path, c) := by
  cases c <;> rfl

end Json

/-! ## The data of a document -/

namespace Document

open Json JsonValue

def outlinedFile (path : String) (o : Outline) : OutlinedFile :=
  ⟨path, o.errors, Symbol.shownAll o.symbols⟩

/-- The data that a document holds. -/
def data (d : Document) : DocumentData where
  timestamp := d.timestamp
  tree := d.tree
  files := d.contents.getD []
  outlines := (d.outlines.getD []).map fun (path, o) => outlinedFile path o

theorem outlinedFile?_outlineJson (path : String) (o : Outline) :
    outlinedFile? (outlineJson path o).meaning = some (outlinedFile path o) := by
  have hfields : (outlineJson path o).meaning =
      .record (fieldIf "path" (some (.text path)) ++
        fieldIf "symbols" (listIf (meanings (ShownSymbol.jsonAll (Symbol.shownAll o.symbols)))) ++
        fieldIf "errors" (listIf (o.errors.map .text))) := by
    rw [outlineJson, meaning]
    simp only [fieldMeanings_append, fieldMeanings_listField, meanings_map, symbolsJson_eq, meaning]
    rfl
  rw [hfields]
  generalize hfields : fieldIf "path" _ ++ _ ++ _ = fields
  have hpath : textOf? fields "path" = some path := by
    simp [← hfields, textOf?, List.lookup_append, lookup_fieldIf, text?]
  have hsymbols : itemsOf? fields "symbols" =
      some (meanings (ShownSymbol.jsonAll (Symbol.shownAll o.symbols))) :=
    itemsOf?_of_lookup (by simp [← hfields, List.lookup_append, lookup_fieldIf])
  have herrors : itemsOf? fields "errors" = some (o.errors.map .text) :=
    itemsOf?_of_lookup (by simp [← hfields, List.lookup_append, lookup_fieldIf])
  have htexts : (o.errors.map Json.text).mapM text? = some (o.errors.map id) :=
    mapM_map (f := text?) (fun _ => rfl) o.errors
  simp only [outlinedFile?, hpath, hsymbols, herrors, htexts, Option.bind_some,
    Option.bind_eq_bind, symbols?_jsonAll, List.map_id]
  rfl

/-- Nothing of a document is lost in its JSON text. -/
theorem recover?_renderJson (d : Document) :
    DocumentData.recover? d.renderJson = some d.data := by
  have hfields : d.toJson.meaning =
      .record (fieldIf "timestamp" (some (.text d.timestamp)) ++
        fieldIf "tree" (d.tree.map .text) ++
        fieldIf "files" (listIf ((d.contents.getD []).map fun file =>
          (contentJson file.1 file.2).meaning)) ++
        fieldIf "outlines" (listIf ((d.outlines.getD []).map fun file =>
          (outlineJson file.1 file.2).meaning))) := by
    rw [toJson, meaning]
    simp only [fieldMeanings_append, fieldMeanings_textField, fieldMeanings_listField, meanings_map]
    rfl
  rw [DocumentData.recover?, renderJson, read?_pretty, Option.bind_some, hfields]
  generalize hfields : fieldIf "timestamp" _ ++ _ ++ _ ++ _ = fields
  have htimestamp : textOf? fields "timestamp" = some d.timestamp := by
    simp [← hfields, textOf?, List.lookup_append, lookup_fieldIf, text?]
  have htree : optionalText? fields "tree" = some d.tree :=
    optionalText?_of_lookup (by simp [← hfields, List.lookup_append, lookup_fieldIf])
  have hfiles : (itemsOf? fields "files").bind (·.mapM file?) = some (d.contents.getD []) := by
    rw [itemsOf?_of_lookup (by simp [← hfields, List.lookup_append, lookup_fieldIf]; rfl)]
    rw [Option.bind_some, mapM_map (r := id) (fun file => file?_contentJson file.1 file.2),
      List.map_id]
  have houtlines : (itemsOf? fields "outlines").bind (·.mapM outlinedFile?) =
      some ((d.outlines.getD []).map fun file => outlinedFile file.1 file.2) := by
    rw [itemsOf?_of_lookup (by simp [← hfields, List.lookup_append, lookup_fieldIf]; rfl)]
    exact mapM_map (fun file : String × Outline => outlinedFile?_outlineJson file.1 file.2) _
  simp only [documentData?, htimestamp, htree, hfiles, houtlines, Option.bind_some,
    Option.bind_eq_bind]
  rfl

end Document

/-! ## The data of a run -/

def TellsOutline (fs : FileSystem) (registry : OutlineRegistry) (entry : PathEntry)
    (told : OutlinedFile) : Prop :=
  ∃ found taker text, Document.Outlined fs registry entry found taker text ∧
    told = Document.outlinedFile found.1 found.2

/-- The data are those of the files, as far as the options want them, in the order of the entries. -/
structure DocumentData.Tells (fs : FileSystem) (registry : OutlineRegistry)
    (options : OutputOptions) (timestamp : String) (entries : List PathEntry)
    (data : DocumentData) : Prop where
  timestamp : data.timestamp = timestamp
  tree : data.tree = Document.drawing options entries
  files : List.Forall₂ (ShowsContent fs options.skipBinary)
    (if options.dump then Document.files entries else []) data.files
  outlines : List.Forall₂ (TellsOutline fs registry)
    (if options.outline then
      (Document.files entries).filter fun entry => registry.isSupported entry.path
    else []) data.outlines

section

variable {fs : FileSystem} {registry : OutlineRegistry} {options : OutputOptions}
  {timestamp : String} {entries : List PathEntry}

theorem rightUnique_tellsOutline : Relator.RightUnique (TellsOutline fs registry) := by
  rintro entry told told' ⟨found, taker, text, h, rfl⟩ ⟨found', taker', text', h', rfl⟩
  obtain rfl : taker = taker' := Option.some.inj (h.takes.symm.trans h'.takes)
  obtain rfl : text = text' := by simpa using h.read.symm.trans h'.read
  have houtline : found.2 = found'.2 := Except.ok.inj (h.outline.symm.trans h'.outline)
  rw [h.path, h'.path, houtline]

theorem DocumentData.Tells.eq {data data' : DocumentData}
    (h : data.Tells fs registry options timestamp entries)
    (h' : data'.Tells fs registry options timestamp entries) : data' = data := by
  have hfiles := List.right_unique_forall₂' (rightUnique_showsContent _) h'.files h.files
  have houtlines := List.right_unique_forall₂' rightUnique_tellsOutline h'.outlines h.outlines
  obtain ⟨t, tree, files, outlines⟩ := data
  obtain ⟨t', tree', files', outlines'⟩ := data'
  have htimestamp : t' = t := h'.timestamp.trans h.timestamp.symm
  have htree : tree' = tree := h'.tree.trans h.tree.symm
  simp_all

theorem Wanted.forall₂_getD {α β : Type} {R : α → β → Prop} {wanted : Bool} {l : List α}
    {found : Option (List β)} (h : Wanted wanted (List.Forall₂ R l) found) :
    List.Forall₂ R (if wanted then l else []) (found.getD []) := by
  cases found with
  | none =>
    have hoff : wanted = false := h
    simp [hoff]
  | some found =>
    rw [if_pos h.1]
    exact h.2

namespace Document

theorem tells_of_gather {d : Document}
    (h : gather fs registry options timestamp entries = .ok d) :
    d.data.Tells fs registry options timestamp entries := by
  obtain ⟨outlines, contents, houtlines, hcontents, rfl⟩ := gather_eq_ok_iff.mp h
  refine ⟨rfl, rfl, ?_, ?_⟩
  · exact (wanted_of_optional hcontents fun _ => gatherContents_eq_ok_iff.mp).forall₂_getD
  · have hfound := (wanted_of_optional houtlines fun _ => outlined_of_gatherOutlines).forall₂_getD
    refine List.forall₂_map_right_iff.mpr (hfound.imp ?_)
    rintro entry found ⟨taker, text, houtlined⟩
    exact ⟨found, taker, text, houtlined, rfl⟩

/-- The JSON text of a run tells all its data, and no run with other data has the same text. -/
theorem json_tells_all {output : String}
    (h : generate fs registry { options with format := .json } timestamp entries = .ok output) :
    ∃ data : DocumentData, data.Tells fs registry options timestamp entries ∧
      DocumentData.recover? output = some data ∧
      ∀ (fs' : FileSystem) (registry' : OutlineRegistry) (options' : OutputOptions)
        (timestamp' : String) (entries' : List PathEntry),
        generate fs' registry' { options' with format := .json } timestamp' entries' = .ok output →
          ∀ data' : DocumentData, data'.Tells fs' registry' options' timestamp' entries' →
            data' = data := by
  obtain ⟨d, hgather, rfl⟩ := (generate_format_eq_ok_iff .json).mp h
  have hrecover : DocumentData.recover? (d.render .json) = some d.data := recover?_renderJson d
  refine ⟨d.data, tells_of_gather hgather, hrecover, ?_⟩
  intro fs' registry' options' timestamp' entries' h' data' hdata'
  obtain ⟨d', hgather', hsame⟩ := (generate_format_eq_ok_iff .json).mp h'
  have hrecover' : DocumentData.recover? (d'.render .json) = some d'.data := recover?_renderJson d'
  rw [hsame, hrecover, Option.some.injEq] at hrecover'
  rw [(tells_of_gather hgather').eq hdata', hrecover']

/-! ### A file of escapes -/

def awkwardText : String := "\"\\\n\x01😀"

def awkwardFiles : FileSystem where
  root := .directory [("odd.go", .file (Utf8.encode awkwardText.toList))]

def awkwardJson : String :=
  "\x7b\n  \"timestamp\": \"now\",\n  \"files\": [\n    \x7b\n      \"path\": \"w/odd.go\",\n" ++
    "      \"content\": \"\\\"\\\\\\n\\u0001😀\"\n    \x7d\n  ],\n  \"outlines\": [\n    \x7b\n" ++
    "      \"path\": \"w/odd.go\",\n      \"symbols\": [\n        \x7b\n" ++
    "          \"type\": \"function\",\n          \"name\": \"main\",\n" ++
    "          \"signature\": \"func main()\"\n        \x7d\n      ]\n    \x7d\n  ]\n\x7d"

def awkwardOptions : OutputOptions :=
  { format := .json, tree := false, outline := true, skipBinary := false }

theorem json_tells_awkward_text :
    ∃ data : DocumentData,
      generate awkwardFiles mainRegistry { awkwardOptions with format := .json } "now"
        [.file "/odd.go" "w/odd.go" (some 9)] = .ok awkwardJson ∧
      data.Tells awkwardFiles mainRegistry awkwardOptions "now" [.file "/odd.go" "w/odd.go" (some 9)] ∧
      DocumentData.recover? awkwardJson = some data := by
  have hjson : generate awkwardFiles mainRegistry { awkwardOptions with format := .json } "now"
      [.file "/odd.go" "w/odd.go" (some 9)] = .ok awkwardJson := by
    decide +kernel
  obtain ⟨data, htells, hrecover, _⟩ := json_tells_all hjson
  exact ⟨data, hjson, htells, hrecover⟩

end Document

end

end SourceBundle
