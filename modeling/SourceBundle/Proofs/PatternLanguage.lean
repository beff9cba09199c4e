import Mathlib.Computability.Language
import SourceBundle.Proofs.PatternScan
import SourceBundle.Proofs.RegexMatching
import SourceBundle.Proofs.RegexReading

/-!
# The language of a pattern

Each part of a pattern has a set of texts, said without expressions. The expression that a pattern
is translated into is read back from its source text, and it matches just the paths that are cut
into texts of the parts.
-/

namespace SourceBundle

/-! ## What the parts stand for -/

def textsWhere (p : List Char → Prop) : Language Char := {w | p w}

@[simp] theorem mem_textsWhere {p : List Char → Prop} {w : List Char} :
    w ∈ textsWhere p ↔ p w := Iff.rfl

def directoriesAbove : Language Char :=
  textsWhere fun w => w = [] ∨ ∃ x, '\n' ∉ x ∧ x ++ ['/'] = w

def pathsBelow : Language Char :=
  textsWhere fun w => w = [] ∨ ∃ x, '\n' ∉ x ∧ '/' :: x = w

/-- The texts that a token stands for. -/
def PatternToken.language : PatternToken → Language Char
  | .between => textsWhere fun w =>
      w = ['/'] ∨ ∃ x, ('\n' ∉ x ∧ x ≠ []) ∧ '/' :: (x ++ ['/']) = w
  | .leading => directoriesAbove
  | .trailing => pathsBelow
  | .star => textsWhere fun w => '/' ∉ w
  | .question => textsWhere fun w => ∃ c, c ≠ '/' ∧ w = [c]
  | .bracket false items => textsWhere fun w => ∃ c, (∃ i ∈ items, i.contains c = true) ∧ w = [c]
  | .bracket true items => textsWhere fun w =>
      ∃ c, (c ≠ '/' ∧ ∀ i ∈ items, i.contains c = false) ∧ w = [c]
  | .literal c => textsWhere fun w => w = [c]

/-- The texts that may stand before the body of a pattern. -/
def Anchor.language : Anchor → Language Char
  | .root => textsWhere fun w => w = [] ∨ w = ['/']
  | .anyDepth => directoriesAbove
  | .bare => textsWhere fun w => w = []

theorem Anchor.language_bare : bare.language = 1 := rfl

/-- The texts that may stand behind the body of a pattern. -/
def tailLanguage : Bool → Language Char
  | true => textsWhere fun w => '\n' ∉ w
  | false => pathsBelow

/-- The paths of a pattern: one text for each of its parts, in order. -/
def PathPattern.language (p : PathPattern) : Language Char :=
  p.anchor.language * (p.tokens.map PatternToken.language).prod * tailLanguage p.directoryOnly

/-! ## Descriptions that do not look around -/

theorem Piece.seqSpans_append {ps qs : List Piece} {before w after : List Char} :
    Piece.SeqSpans (ps ++ qs) before w after ↔
      ∃ s t, s ++ t = w ∧ Piece.SeqSpans ps before s (t ++ after) ∧
        Piece.SeqSpans qs (before ++ s) t after := by
  induction ps generalizing before w with
  | nil => simp [Piece.seqSpans_nil]
  | cons p ps ih =>
    simp only [List.cons_append, Piece.seqSpans_cons, ih]
    constructor
    · intro ⟨s, _, he, hp, t, u, he', hps, hqs⟩
      subst he he'
      exact ⟨s ++ t, u, by simp, ⟨s, t, rfl, by simpa using hp, hps⟩, by simpa using hqs⟩
    · intro ⟨_, u, he, ⟨s, t, he', hp, hps⟩, hqs⟩
      subst he he'
      exact ⟨s, t ++ u, by simp, by simpa using hp, t, u, rfl, hps, by simpa using hqs⟩

/-- The description holds of the texts of a language, wherever they stand. -/
def Denotes (describes : List Char → List Char → List Char → Prop) (l : Language Char) : Prop :=
  ∀ before w after, describes before w after ↔ w ∈ l

theorem CharClass.one_denotes (cls : CharClass) :
    Denotes (Atom.one cls).Spans (textsWhere fun w => ∃ c, cls.contains c = true ∧ w = [c]) := by
  intro before w after
  constructor
  · intro h
    cases h with
    | one hc => exact ⟨_, hc, rfl⟩
  · intro ⟨c, hc, he⟩
    subst he
    exact .one hc

theorem CharClass.star_denotes (cls : CharClass) :
    Denotes (Atom.star cls).Spans (textsWhere fun w => ∀ c ∈ w, cls.contains c = true) := by
  intro before w after
  constructor
  · intro h
    cases h with
    | star hw => exact hw
  · intro hw
    exact .star hw

theorem CharClass.plus_denotes (cls : CharClass) :
    Denotes (Atom.plus cls).Spans
      (textsWhere fun w => (∀ c ∈ w, cls.contains c = true) ∧ w ≠ []) := by
  intro before w after
  constructor
  · intro h
    cases h with
    | plus hw hne => exact ⟨hw, hne⟩
  · intro ⟨hw, hne⟩
    exact .plus hw hne

namespace Denotes

variable {l m : Language Char}

theorem mul {whole head tail : List Char → List Char → List Char → Prop}
    (h : ∀ before w after, whole before w after ↔
      ∃ s t, s ++ t = w ∧ head before s (t ++ after) ∧ tail (before ++ s) t after)
    (hl : Denotes head l) (hm : Denotes tail m) : Denotes whole (l * m) := by
  intro before w after
  rw [h, Language.mem_mul]
  constructor
  · intro ⟨s, t, he, hs, ht⟩
    exact ⟨s, (hl _ _ _).mp hs, t, (hm _ _ _).mp ht, he⟩
  · intro ⟨s, hs, t, ht, he⟩
    exact ⟨s, t, he, (hl _ _ _).mpr hs, (hm _ _ _).mpr ht⟩

theorem branch_nil : Denotes (Atom.SeqSpans []) 1 := by
  intro before w after
  exact Atom.seqSpans_nil

theorem branch_cons {a : Atom} {as : List Atom} (hl : Denotes a.Spans l)
    (hm : Denotes (Atom.SeqSpans as) m) : Denotes (Atom.SeqSpans (a :: as)) (l * m) :=
  mul (fun _ _ _ => Atom.seqSpans_cons) hl hm

theorem atom {a : Atom} (h : Denotes a.Spans l) : Denotes (Piece.atom a).Spans l := by
  intro before w after
  rw [← h before w after]
  constructor
  · intro hp
    cases hp with
    | atom hs => exact hs
  · intro hs
    exact .atom hs

theorem group {b c : List Atom} (hl : Denotes (Atom.SeqSpans b) l)
    (hm : Denotes (Atom.SeqSpans c) m) : Denotes (Piece.group [b, c]).Spans (l + m) := by
  intro before w after
  rw [Language.mem_add, ← hl before w after, ← hm before w after]
  constructor
  · intro hp
    cases hp with
    | group hmem hs =>
      rcases List.mem_pair.mp hmem with he | he
      · exact Or.inl (he ▸ hs)
      · exact Or.inr (he ▸ hs)
  · intro hs
    rcases hs with hs | hs
    · exact .group (by simp) hs
    · exact .group (by simp) hs

theorem seq_nil : Denotes (Piece.SeqSpans []) 1 := by
  intro before w after
  exact Piece.seqSpans_nil

theorem seq_cons {p : Piece} {ps : List Piece} (hl : Denotes p.Spans l)
    (hm : Denotes (Piece.SeqSpans ps) m) : Denotes (Piece.SeqSpans (p :: ps)) (l * m) :=
  mul (fun _ _ _ => Piece.seqSpans_cons) hl hm

theorem seq_append {ps qs : List Piece} (hl : Denotes (Piece.SeqSpans ps) l)
    (hm : Denotes (Piece.SeqSpans qs) m) : Denotes (Piece.SeqSpans (ps ++ qs)) (l * m) :=
  mul (fun _ _ _ => Piece.seqSpans_append) hl hm

theorem congr {describes : List Char → List Char → List Char → Prop} (h : Denotes describes l)
    (he : ∀ w, w ∈ l ↔ w ∈ m) : Denotes describes m :=
  fun before w after => (h before w after).trans (he w)

end Denotes

/-! ## The parts denote their languages -/

namespace CharClass

@[simp] theorem contains_only {c d : Char} : (only d).contains c = true ↔ c = d := by
  simp [contains]

theorem contains_notSlash {c : Char} : notSlash.contains c = true ↔ c ≠ '/' := by
  simp [notSlash, contains, ClassMember.contains]

theorem contains_notNewline {c : Char} : notNewline.contains c = true ↔ c ≠ '\n' := by
  simp [contains]

theorem all_contains_iff {cls : CharClass} {d : Char} (h : ∀ {c}, cls.contains c = true ↔ c ≠ d)
    {w : List Char} : (∀ c ∈ w, cls.contains c = true) ↔ d ∉ w := by
  simp only [h]
  exact ⟨fun hall hd => hall d hd rfl, fun hd c hc he => hd (he ▸ hc)⟩

@[simp] theorem all_notNewline {w : List Char} :
    (∀ c ∈ w, notNewline.contains c = true) ↔ '\n' ∉ w :=
  all_contains_iff contains_notNewline

@[simp] theorem all_notSlash {w : List Char} :
    (∀ c ∈ w, notSlash.contains c = true) ↔ '/' ∉ w :=
  all_contains_iff contains_notSlash

theorem contains_members_false {c : Char} {items : List ClassMember} :
    (members false items).contains c = true ↔ ∃ i ∈ items, i.contains c = true := by
  simp [contains]

theorem contains_members_true {c : Char} {items : List ClassMember} :
    (members true (.single '/' :: items)).contains c = true ↔
      c ≠ '/' ∧ ∀ i ∈ items, i.contains c = false := by
  simp [contains, ClassMember.contains]

end CharClass

open CharClass Denotes

theorem directoriesAbove_denotes :
    Denotes (Piece.group [[], [.star .notNewline, .one (.only '/')]]).Spans directoriesAbove := by
  refine (group branch_nil (branch_cons (star_denotes _) (branch_cons (one_denotes _)
    branch_nil))).congr fun w => ?_
  simp [Language.mem_add, Language.mem_mul, directoriesAbove]

theorem pathsBelow_denotes :
    Denotes (Piece.group [[], [.one (.only '/'), .star .notNewline]]).Spans pathsBelow := by
  refine (group branch_nil (branch_cons (one_denotes _) (branch_cons (star_denotes _)
    branch_nil))).congr fun w => ?_
  simp [Language.mem_add, Language.mem_mul, pathsBelow]

theorem PatternToken.piece_denotes (token : PatternToken) :
    Denotes token.piece.Spans token.language := by
  cases token with
  | between =>
    refine (group (branch_cons (one_denotes _) branch_nil) (branch_cons (one_denotes _)
      (branch_cons (plus_denotes _) (branch_cons (one_denotes _) branch_nil)))).congr fun w => ?_
    simp [Language.mem_add, Language.mem_mul, language]
  | leading => exact directoriesAbove_denotes
  | trailing => exact pathsBelow_denotes
  | star =>
    refine (star_denotes _).atom.congr fun w => ?_
    simp [language]
  | question =>
    refine (one_denotes _).atom.congr fun w => ?_
    simp [language, contains_notSlash]
  | bracket negated items =>
    cases negated with
    | false =>
      refine (one_denotes _).atom.congr fun w => ?_
      simp only [mem_textsWhere, language, contains_members_false]
    | true =>
      refine (one_denotes _).atom.congr fun w => ?_
      simp only [mem_textsWhere, language, contains_members_true]
  | literal c =>
    refine (one_denotes _).atom.congr fun w => ?_
    simp [language]

theorem PatternToken.pieces_denote (tokens : List PatternToken) :
    Denotes (Piece.SeqSpans (tokens.map PatternToken.piece))
      (tokens.map PatternToken.language).prod := by
  induction tokens with
  | nil => exact seq_nil
  | cons token tokens ih => exact seq_cons token.piece_denotes ih

/-! ## Whole patterns -/

theorem Piece.spans_textStart {before w after : List Char} :
    (Piece.atom .textStart).Spans before w after ↔ before = [] ∧ w = [] := by
  constructor
  · intro h
    cases h with
    | atom h =>
      cases h
      exact ⟨rfl, rfl⟩
  · intro ⟨hb, hw⟩
    subst hb hw
    exact .atom .textStart

theorem Piece.spans_textEnd {before w after : List Char} :
    (Piece.atom .textEnd).Spans before w after ↔ w = [] ∧ after = [] := by
  constructor
  · intro h
    cases h with
    | atom h =>
      cases h
      exact ⟨rfl, rfl⟩
  · intro ⟨hw, ha⟩
    subst hw ha
    exact .atom .textEnd

theorem Regex.matches_anchored {ps : List Piece} {l : Language Char}
    (h : Denotes (Piece.SeqSpans ps) l) (text : List Char) :
    Regex.Matches ⟨.atom .textStart :: (ps ++ [.atom .textEnd])⟩ text ↔ text ∈ l := by
  constructor
  · intro ⟨before, middle, after, htext, hs⟩
    obtain ⟨s, t, he, hstart, hrest⟩ := Piece.seqSpans_cons.mp hs
    obtain ⟨u, v, he', hps, hend⟩ := Piece.seqSpans_append.mp hrest
    obtain ⟨v', w, he'', hend, hnil⟩ := Piece.seqSpans_cons.mp hend
    obtain ⟨hb, hs⟩ := Piece.spans_textStart.mp hstart
    obtain ⟨hv, ha⟩ := Piece.spans_textEnd.mp hend
    have hw := Piece.seqSpans_nil.mp hnil
    have hu : text = u := by simp_all
    exact hu ▸ (h _ _ _).mp hps
  · intro hmem
    refine ⟨[], text, [], by simp, Piece.seqSpans_cons.mpr ⟨[], text, rfl, ?_, ?_⟩⟩
    · exact Piece.spans_textStart.mpr ⟨rfl, rfl⟩
    · refine Piece.seqSpans_append.mpr ⟨text, [], by simp, (h _ _ _).mpr hmem, ?_⟩
      refine Piece.seqSpans_cons.mpr ⟨[], [], rfl, ?_, Piece.seqSpans_nil.mpr rfl⟩
      exact Piece.spans_textEnd.mpr ⟨rfl, rfl⟩

theorem Anchor.exists_pieces (anchor : Anchor) :
    ∃ ps, anchor.pieces = .atom .textStart :: ps ∧ Denotes (Piece.SeqSpans ps) anchor.language := by
  cases anchor with
  | root =>
    refine ⟨_, rfl, (seq_cons (group branch_nil (branch_cons (one_denotes _) branch_nil))
      seq_nil).congr fun w => ?_⟩
    simp [Language.mem_add, language]
  | anyDepth =>
    refine ⟨_, rfl, (seq_cons directoriesAbove_denotes seq_nil).congr fun w => ?_⟩
    rw [mul_one]
    rfl
  | bare => exact ⟨[], rfl, seq_nil⟩

theorem tailPieces_denote (directoryOnly : Bool) :
    ∃ ps, tailPieces directoryOnly = ps ++ [.atom .textEnd] ∧
      Denotes (Piece.SeqSpans ps) (tailLanguage directoryOnly) := by
  cases directoryOnly with
  | true =>
    refine ⟨[_], rfl, (seq_cons (group branch_nil (branch_cons (star_denotes _) branch_nil))
      seq_nil).congr fun w => ?_⟩
    simp +contextual [Language.mem_add, tailLanguage]
  | false =>
    refine ⟨[_], rfl, (seq_cons pathsBelow_denotes seq_nil).congr fun w => ?_⟩
    rw [mul_one]
    rfl

/-- A pattern matches the paths of its language. -/
theorem PathPattern.isMatch_iff (p : PathPattern) (text : List Char) :
    p.regex.isMatch text = true ↔ text ∈ p.language := by
  obtain ⟨start, hstart, hanchor⟩ := p.anchor.exists_pieces
  obtain ⟨last, hlast, htail⟩ := tailPieces_denote p.directoryOnly
  have hbody := seq_append (seq_append hanchor (PatternToken.pieces_denote p.tokens)) htail
  have hregex : p.regex = ⟨.atom .textStart :: (start ++ p.tokens.map PatternToken.piece ++ last ++
      [.atom .textEnd])⟩ := by
    simp [regex, hstart, hlast]
  rw [Regex.isMatch_iff_matches, hregex, Regex.matches_anchored hbody]
  rfl

/-! ## Patterns are read back -/

namespace PatternToken

theorem classItems_proper (ms : List Char) : ∀ i ∈ classItems ms, i.Proper := by
  fun_induction classItems ms with
  | case1 lo hi ms hle ih => exact List.forall_mem_cons.mpr ⟨hle, ih⟩
  | case2 lo hi ms hle ih => simpa [ClassMember.Proper] using ih
  | case3 c ms _ ih => simpa [ClassMember.Proper] using ih
  | case4 => simp

theorem classItems_ne_nil {ms : List Char} (h : ms ≠ []) : classItems ms ≠ [] := by
  fun_cases classItems ms <;> simp_all

theorem Begins.proper {token : PatternToken} {text rest : List Char}
    (h : token.Begins text rest) : token.piece.Proper := by
  cases h with
  | bracket h =>
    obtain ⟨⟨negated, ms, he, hne⟩, _⟩ := bracket?_spec h
    subst he
    have hitems := classItems_proper ms
    cases negated with
    | false => exact ⟨classItems_ne_nil hne, hitems⟩
    | true => exact ⟨by simp, List.forall_mem_cons.mpr ⟨trivial, hitems⟩⟩
  | _ => simp [piece, Piece.Proper, Atom.Proper, CharClass.Proper, CharClass.notSlash,
      ClassMember.Proper]

theorem Scans.proper {text : List Char} {tokens : List PatternToken} (h : Scans text tokens) :
    ∀ token ∈ tokens, token.piece.Proper := by
  induction h with
  | nil => simp
  | cons head tail ih => exact List.forall_mem_cons.mpr ⟨head.proper, ih⟩

end PatternToken

theorem Anchor.pieces_proper (anchor : Anchor) : ∀ p ∈ anchor.pieces, p.Proper := by
  cases anchor <;> simp [pieces, Piece.Proper, Atom.Proper, CharClass.Proper]

theorem tailPieces_proper (directoryOnly : Bool) : ∀ p ∈ tailPieces directoryOnly, p.Proper := by
  cases directoryOnly <;> simp [tailPieces, Piece.Proper, Atom.Proper, CharClass.Proper]

theorem PathPattern.regex_proper (pattern : List Char) : (ofChars pattern).regex.Proper := by
  intro p hp
  simp only [regex, List.mem_append, List.mem_map] at hp
  rcases hp with (hp | ⟨token, htoken, hp⟩) | hp
  · exact Anchor.pieces_proper _ p hp
  · exact hp ▸ (PatternToken.scans_iff.mpr rfl).proper token htoken
  · exact tailPieces_proper _ p hp

/-- Reading a translated pattern gives the expression that was written. -/
theorem read?_translate (pattern : List Char) :
    Regex.read? (translate pattern) = some (PathPattern.ofChars pattern).regex :=
  Regex.read?_source (PathPattern.regex_proper pattern)

/-- Every pattern has one anchor and is cut into tokens in one way; its source text is read back as
an expression, refused for nothing but its size, which matches a path exactly where the path is cut
into a text of the anchor, a text for each token in order, and a text of the tail. -/
theorem translate_denotes (pattern : List Char) :
    ∃ anchor body tokens regex,
      (∀ a b, Anchor.Begins a pattern b ↔ a = anchor ∧ b = body) ∧
      (∀ ts, PatternToken.Scans body ts ↔ ts = tokens) ∧
      Regex.read? (translate pattern) = some regex ∧
      Regex.compile? (translate pattern) =
        (if regex.weight ≤ Regex.sizeLimit then some regex else none) ∧
      ∀ path, regex.isMatch path = true ↔ ∃ start middle rest, start ++ middle ++ rest = path ∧
        start ∈ anchor.language ∧ middle ∈ (tokens.map PatternToken.language).prod ∧
        rest ∈ tailLanguage (pattern.getLast? == some '/') := by
  have hread := read?_translate pattern
  refine ⟨(Anchor.split pattern).1, (Anchor.split pattern).2, (PathPattern.ofChars pattern).tokens,
    (PathPattern.ofChars pattern).regex, fun _ _ => Anchor.begins_iff,
    fun _ => PatternToken.scans_iff, hread, ?_, fun path => ?_⟩
  · rw [Regex.compile?, hread, Option.filter_some]
    simp only [decide_eq_true_eq]
  · rw [PathPattern.isMatch_iff, PathPattern.language, Language.mem_mul]
    constructor
    · intro ⟨front, hfront, rest, hrest, he⟩
      obtain ⟨start, hstart, middle, hmiddle, he'⟩ := Language.mem_mul.mp hfront
      exact ⟨start, middle, rest, he' ▸ he, hstart, hmiddle, hrest⟩
    · intro ⟨start, middle, rest, he, hstart, hmiddle, hrest⟩
      exact ⟨_, Language.append_mem_mul hstart hmiddle, rest, hrest, he⟩

end SourceBundle
