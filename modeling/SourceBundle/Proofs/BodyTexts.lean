import SourceBundle.Proofs.FunctionBodies
import SourceBundle.Proofs.GoDocumentation

/-!
# The texts around bodies

A well-formed source is made of the bodies of its functions and methods, each one in braces, and of the
texts before, between and behind them.
-/

namespace SourceBundle.Go

def textsOutside : Cursor → List (Cursor × Cursor) → List (List Char)
  | c, [] => [c.rest]
  | c, (d, e) :: bodies => c.textTo d :: textsOutside e bodies

/-- Where the bodies of the functions and methods of a well-formed source begin and end. -/
def bodiesOf (source : List Char) : Option (List (Cursor × Cursor)) :=
  let start := Cursor.ofText source
  (topPieces (depthOf source) Prod.mk (start.left + 1) start).map (bodySpans (depthOf source))

/-- The texts of a well-formed source before, between and behind the bodies of its functions and
methods. -/
def outsideBodies (source : List Char) : Option (List (List Char)) :=
  (bodiesOf source).map (textsOutside (.ofText source))

/-- Texts with others between them. -/
def weave : List (List Char) → List (List Char) → List Char
  | text :: texts, other :: others => text ++ other ++ weave texts others
  | texts, _ => texts.flatten

namespace Cursor

variable {c d e : Cursor}

theorem textTo_append_rest (hc : c.Counted) (h : c.Reaches d) : c.textTo d ++ d.rest = c.rest := by
  have hdrop : d.rest = c.rest.drop (c.left - d.left) := by rw [← advance_rest, h.advance_eq hc]
  rw [hdrop]
  exact List.take_append_drop _ _

theorem textTo_append_textTo (hc : c.Counted) (h : c.Reaches d) (h' : d.Reaches e) :
    c.textTo d ++ d.textTo e = c.textTo e := by
  have hrest : (c.textTo d ++ d.textTo e) ++ e.rest = c.textTo e ++ e.rest := by
    rw [List.append_assoc, textTo_append_rest (h.counted hc) h', textTo_append_rest hc h,
      textTo_append_rest hc (h.trans h')]
  exact List.append_cancel_right hrest

theorem textTo_next {ch : Char} (hc : c.Counted) (h : c.rest.head? = some ch) :
    c.textTo c.next = [ch] := by
  obtain ⟨cs, hrest⟩ := List.head?_eq_some_iff.mp h
  have hleft : c.left = cs.length + 1 := by rw [hc, hrest, List.length_cons]
  rw [textTo, next_left hc, hrest, hleft, Nat.add_sub_cancel, Nat.add_sub_cancel_left]
  rfl

end Cursor

section

variable {fuel : Nat} {c d e : Cursor} {bodies : List (Cursor × Cursor)}

theorem textTo_of_mem_block (hd : d.Counted) (hopen : d.rest.head? = some '\x7b')
    (he : e ∈ (Form.phrase .block).ends fuel d) :
    ∃ inner, d.textTo e = '\x7b' :: (inner ++ ['\x7d']) := by
  obtain ⟨fuel', p, -, hp, hclose, rfl⟩ := exists_of_mem_block he
  have hskip : d.skip = d := by
    obtain ⟨cs, hrest⟩ := List.head?_eq_some_iff.mp hopen
    have hstay : skipFrom true d.left d = ([], d) :=
      Setting.skipFrom_stop hrest rfl (by rw [hrest]; rfl) _
    rw [Cursor.skip, hstay]
  rw [hskip] at hp
  have hnext := hd.next
  have hinner := (Form.reaches_of_mem_ends hp).trans (Cursor.reaches_skip p)
  have hinnerCounted := hinner.counted hnext
  refine ⟨d.next.textTo p.skip, ?_⟩
  rw [← Cursor.textTo_append_textTo hd (Cursor.reaches_next d) (hinner.trans (Cursor.reaches_next _)),
    ← Cursor.textTo_append_textTo hnext hinner (Cursor.reaches_next _), Cursor.textTo_next hd hopen,
    Cursor.textTo_next hinnerCounted hclose]
  rfl

theorem Ahead.eq_weave (h : Ahead fuel c bodies) (hc : c.Counted)
    (hfuel : 64 * c.left + 256 ≤ fuel) :
    c.rest = weave (textsOutside c bodies) (bodies.map fun body => body.1.textTo body.2) ∧
      ∀ body ∈ bodies, ∃ inner, body.1.textTo body.2 = '\x7b' :: (inner ++ ['\x7d']) := by
  induction bodies generalizing c with
  | nil => exact ⟨(List.append_nil _).symm, fun _ hbody => absurd hbody List.not_mem_nil⟩
  | cons body bodies ih =>
    obtain ⟨d, e⟩ := body
    obtain ⟨hpath, hopen, hblock, behind, hbehind, rfl⟩ := h
    have hd := hpath.reaches.counted hc
    have hreach := Form.reaches_of_mem_ends hblock
    have hle := (hpath.reaches.trans hreach).left_le hc
    have he := hreach.counted hd
    obtain ⟨hrest, hbraces⟩ := ih (hbehind.ahead he (by omega)) he (by omega)
    refine ⟨?_, ?_⟩
    · rw [List.map_cons, textsOutside, weave, ← hrest, List.append_assoc,
        Cursor.textTo_append_rest hd hreach, Cursor.textTo_append_rest hc hpath.reaches]
    · rintro body (_ | ⟨_, hbody⟩)
      · exact textTo_of_mem_block hd hopen hblock
      · exact hbraces body hbody

end

/-- A well-formed source is what stands outside the bodies with the bodies between, all of them in
braces. -/
theorem eq_weave_of_bodiesOf {source : List Char} {bodies : List (Cursor × Cursor)}
    (h : bodiesOf source = some bodies) :
    (Cursor.ofText source).rest =
        weave (textsOutside (.ofText source) bodies) (bodies.map fun body => body.1.textTo body.2) ∧
      ∀ body ∈ bodies, ∃ inner, body.1.textTo body.2 = '\x7b' :: (inner ++ ['\x7d']) := by
  have hc := Cursor.counted_ofText source
  obtain ⟨pieces, hpieces, rfl⟩ := Option.map_eq_some_iff.mp h
  have hparsed := parsed_of_topPieces hc (Nat.lt_succ_self _) hpieces
  have hfuel : 64 * (Cursor.ofText source).left + 256 ≤ depthOf source := by
    rw [depthOf, depthBound]
    omega
  exact (hparsed.ahead hc hfuel).eq_weave hc hfuel

end SourceBundle.Go
