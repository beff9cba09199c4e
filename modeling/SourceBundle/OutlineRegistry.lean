import SourceBundle.BundleError
import SourceBundle.Outline
import SourceBundle.PathText
import SourceBundle.QuotedText
import SourceBundle.StableSort
import SourceBundle.Utf8

/-!
# Outliners by extension

Which outliner a path is given to. An outliner is registered for the extensions it lists, and for
each of them it takes the place of the one registered before.
-/

namespace SourceBundle

structure Outliner where
  /-- File name extensions, each with its dot. -/
  extensions : List String
  /-- The outline of a text that was read from a path. -/
  outline : (text path : String) → Except OutlineError Outline

structure OutlineRegistry where
  /-- The outliners in the order of their registration. -/
  outliners : List Outliner := []
  /-- For each extension the place of its outliner, extensions in the order of their bytes. -/
  places : List (String × Nat) := []

namespace OutlineRegistry

/-- Whether one extension is listed before another. -/
def extensionLe (a b : String) : Bool :=
  bytesLe (Utf8.encode a.toList) (Utf8.encode b.toList)

/-- Gives an extension to the outliner at a place. -/
def assign (ext : String) (place : Nat) : List (String × Nat) → List (String × Nat)
  | [] => [(ext, place)]
  | (other, current) :: rest =>
    if other == ext then (ext, place) :: rest
    else if extensionLe ext other then (ext, place) :: (other, current) :: rest
    else (other, current) :: assign ext place rest

def register (r : OutlineRegistry) (outliner : Outliner) : OutlineRegistry where
  outliners := r.outliners ++ [outliner]
  places := outliner.extensions.foldl (fun places ext => assign ext r.outliners.length places) r.places

/-- Each extension with its outliner. -/
def handlers (r : OutlineRegistry) : List (String × Outliner) :=
  r.places.filterMap fun (ext, place) => (r.outliners[place]?).map (ext, ·)

def extensions (r : OutlineRegistry) : List String :=
  r.places.map (·.1)

/-- The outliner for a path's extension. -/
def outlinerFor? (r : OutlineRegistry) (path : String) : Option Outliner :=
  (PathText.extension? path).bind fun ext =>
    (r.places.lookup ("." ++ ext)).bind fun place => r.outliners[place]?

def isSupported (r : OutlineRegistry) (path : String) : Bool :=
  (r.outlinerFor? path).isSome

/-- The registry as a diagnostic text. -/
def debugText (r : OutlineRegistry) : String :=
  "OutlineRegistry \x7b extensions: [" ++ String.intercalate ", " (r.extensions.map quoted) ++
    "] \x7d"

end OutlineRegistry

end SourceBundle
