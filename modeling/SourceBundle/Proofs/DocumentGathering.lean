import SourceBundle.Document
import SourceBundle.Proofs.FallibleSteps

/-!
# How documents come about

A document is gathered exactly when the sections that are wanted can be gathered, in whatever order
the format has them. Its contents name every file once, in the order of the entries.
-/

namespace SourceBundle

namespace Document

variable {fs : FileSystem} {registry : OutlineRegistry} {options : OutputOptions}
  {timestamp : String} {entries : List PathEntry} {document : Document}

/-! ## Sections -/

def drawing (options : OutputOptions) (entries : List PathEntry) : Option String :=
  if options.tree then some (TreeNode.renderEntries options.sizes entries) else none

/-- Which document is gathered has nothing to do with the format. -/
theorem gather_eq_ok_iff :
    gather fs registry options timestamp entries = .ok document ↔
      ∃ outlines contents,
        optional options.outline (gatherOutlines fs registry entries) = .ok outlines ∧
        optional options.dump (gatherContents fs options.skipBinary entries) = .ok contents ∧
        document = ⟨timestamp, drawing options entries, outlines, contents⟩ := by
  rw [gather]
  cases options.format with
  | text =>
    simp only [bind_eq_ok_iff, pure_eq_ok_iff, drawing]
    constructor
    · rintro ⟨outlines, houtlines, contents, hcontents, rfl⟩
      exact ⟨outlines, contents, houtlines, hcontents, rfl⟩
    · rintro ⟨outlines, contents, houtlines, hcontents, rfl⟩
      exact ⟨outlines, houtlines, contents, hcontents, rfl⟩
  | json =>
    simp only [bind_eq_ok_iff, pure_eq_ok_iff, drawing]
    constructor
    · rintro ⟨contents, hcontents, outlines, houtlines, rfl⟩
      exact ⟨outlines, contents, houtlines, hcontents, rfl⟩
    · rintro ⟨outlines, contents, houtlines, hcontents, rfl⟩
      exact ⟨contents, hcontents, outlines, houtlines, rfl⟩

theorem generate_eq_ok_iff {output : String} :
    generate fs registry options timestamp entries = .ok output ↔
      ∃ document, gather fs registry options timestamp entries = .ok document ∧
        document.render options.format = output := by
  simp only [generate, bind_eq_ok_iff, pure_eq_ok_iff]

theorem optional_eq_ok_iff {ε α : Type} {wanted : Bool} {gather : Except ε α} {section? : Option α} :
    optional wanted gather = .ok section? ↔
      if wanted then ∃ found, gather = .ok found ∧ section? = some found else section? = none := by
  cases wanted with
  | false => simp [optional, eq_comm]
  | true => cases gather <;> simp [optional, Functor.map, Except.map, eq_comm]

/-! ## Contents -/

theorem gatherContents_eq_ok_iff {skipBinary : Bool} {contents : List (String × Content)} :
    gatherContents fs skipBinary entries = .ok contents ↔
      List.Forall₂ (fun entry content => content.1 = entry.relative ∧
        Content.load fs entry.path skipBinary = .ok content.2) (files entries) contents := by
  rw [gatherContents, mapM_eq_ok_iff]
  have hstep : ∀ (entry : PathEntry) (content : String × Content),
      (do return (entry.relative, ← Content.load fs entry.path skipBinary) :
        Except OutputError (String × Content)) = .ok content ↔
      content.1 = entry.relative ∧ Content.load fs entry.path skipBinary = .ok content.2 := by
    rintro entry ⟨path, content⟩
    simp only [bind_eq_ok_iff, pure_eq_ok_iff, Prod.mk.injEq]
    constructor
    · rintro ⟨_, hload, rfl, rfl⟩
      exact ⟨rfl, hload⟩
    · rintro ⟨rfl, hload⟩
      exact ⟨content, hload, rfl, rfl⟩
  simp only [hstep]

theorem names_of_gatherContents {skipBinary : Bool} {contents : List (String × Content)}
    (h : gatherContents fs skipBinary entries = .ok contents) :
    contents.map (·.1) = (files entries).map (·.relative) := by
  have hsections := gatherContents_eq_ok_iff.mp h
  rw [← List.forall₂_eq_eq_eq, List.forall₂_map_left_iff, List.forall₂_map_right_iff]
  exact hsections.flip.imp fun _ _ hstep => hstep.1

end Document

end SourceBundle
