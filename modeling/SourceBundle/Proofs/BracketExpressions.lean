import SourceBundle.Proofs.PatternLanguage

/-!
# Bracket expressions

A bracket expression is told by its members as they are written, each one plain or behind a
backslash. It is closed by the first closing bracket that is no member, and takes one character:
one that its members list, or, where it is negated, any other one but a slash. Which members list a
range is decided after the backslashes are gone, so a hyphen behind a backslash makes a range too.
-/

namespace SourceBundle

namespace PatternToken

/-! ## Members as they are written -/

inductive WrittenMember where
  | plain (c : Char)
  | escaped (c : Char)
  deriving DecidableEq, Repr

namespace WrittenMember

def char : WrittenMember → Char
  | .plain c => c
  | .escaped c => c

def source : WrittenMember → List Char
  | .plain c => [c]
  | .escaped c => ['\\', c]

end WrittenMember

open WrittenMember

inductive Mark : Bool → List Char → Prop
  | none : Mark false []
  | exclamation : Mark true ['!']
  | caret : Mark true ['^']

/-- The members of a closed bracket expression. A plain backslash would hide what follows it, and a
plain closing bracket is a member only in the first place. -/
structure Closed (negated : Bool) (ms : List WrittenMember) : Prop where
  nonempty : ms ≠ []
  no_backslash : .plain '\\' ∉ ms
  no_bracket : .plain ']' ∉ ms.tail
  no_mark : negated = false → ms.head? ≠ some (.plain '!') ∧ ms.head? ≠ some (.plain '^')

/-- The text behind an opening bracket, up to the closing one. -/
def inside (mark : List Char) (ms : List WrittenMember) : List Char :=
  mark ++ (ms.flatMap source ++ [']'])

theorem members?_source {ms : List WrittenMember} (hbackslash : .plain '\\' ∉ ms)
    (hbracket : .plain ']' ∉ ms) (rest : List Char) :
    members? (ms.flatMap source ++ ']' :: rest) =
      some (ms.map char, (ms.flatMap source).length + 1) := by
  induction ms with
  | nil => rfl
  | cons m ms ih =>
    have hrest := ih (fun h => hbackslash (List.mem_cons_of_mem m h))
      (fun h => hbracket (List.mem_cons_of_mem m h))
    cases m with
    | escaped c =>
      simp only [List.flatMap_cons, source, List.cons_append, List.nil_append]
      rw [members?, hrest]
      simp [char]
    | plain c =>
      have hc : c ≠ '\\' ∧ c ≠ ']' := by
        constructor
        · rintro rfl
          exact hbackslash List.mem_cons_self
        · rintro rfl
          exact hbracket List.mem_cons_self
      simp only [List.flatMap_cons, source, List.cons_append, List.nil_append]
      rw [members?, hrest]
      · simp [char]
      · simp [hc.1]
      · simp [hc.2]
      · simp [hc.1]

theorem firstMembers?_source {negated : Bool} {ms : List WrittenMember} (h : Closed negated ms)
    (rest : List Char) :
    firstMembers? (ms.flatMap source ++ ']' :: rest) =
      some (ms.map char, (ms.flatMap source).length + 1) := by
  obtain ⟨m, ms, rfl⟩ := List.exists_cons_of_ne_nil h.nonempty
  by_cases hm : m = .plain ']'
  · have hrest := members?_source (fun hmem => h.no_backslash (List.mem_cons_of_mem m hmem))
      h.no_bracket rest
    subst hm
    simp only [List.flatMap_cons, source, List.cons_append, List.nil_append]
    rw [firstMembers?, hrest]
    simp [char]
  · have hbracket : .plain ']' ∉ m :: ms := by
      intro hmem
      rcases List.mem_cons.mp hmem with hfirst | hrest
      · exact hm hfirst.symm
      · exact h.no_bracket hrest
    rw [firstMembers?, members?_source h.no_backslash hbracket]
    intro cs hcs
    cases m with
    | plain c => simp_all [source]
    | escaped c => simp [source] at hcs

theorem bracket?_source {negated : Bool} {mark : List Char} {ms : List WrittenMember}
    (hmark : Mark negated mark) (h : Closed negated ms) (rest : List Char) :
    bracket? (inside mark ms ++ rest) =
      some (.bracket negated (classItems (ms.map char)), (inside mark ms).length) := by
  have hfirst := firstMembers?_source h rest
  cases hmark with
  | exclamation => simp [inside, bracket?, hfirst]
  | caret => simp [inside, bracket?, hfirst]
  | none =>
    obtain ⟨m, ms, rfl⟩ := List.exists_cons_of_ne_nil h.nonempty
    obtain ⟨c, cs, hcs, hc⟩ : ∃ c cs, (m :: ms).flatMap source = c :: cs ∧ c ≠ '!' ∧ c ≠ '^' := by
      have hhead := h.no_mark rfl
      cases m with
      | plain c => exact ⟨c, _, rfl, by simpa using hhead⟩
      | escaped c => exact ⟨'\\', _, rfl, by decide⟩
    rw [hcs] at hfirst
    simp only [inside, List.nil_append, hcs, List.append_assoc, List.cons_append] at hfirst ⊢
    rw [bracket?, if_neg (by simp [hc]), hfirst]
    simp

/-! ## Where no bracket closes -/

theorem members?_sound {cs chars : List Char} {n : Nat} (h : members? cs = some (chars, n)) :
    ∃ (ms : List WrittenMember) (rest : List Char), cs = ms.flatMap source ++ ']' :: rest ∧
      .plain '\\' ∉ ms ∧ .plain ']' ∉ ms := by
  fun_induction members? cs generalizing chars n with
  | case1 => simp at h
  | case2 => simp at h
  | case3 cs => exact ⟨[], cs, rfl, List.not_mem_nil, List.not_mem_nil⟩
  | case4 c cs ih =>
    obtain ⟨_, _, hrest, _⟩ := of_map_count h
    obtain ⟨ms, rest, rfl, hbackslash, hbracket⟩ := ih hrest
    exact ⟨.escaped c :: ms, rest, rfl, by simpa using hbackslash, by simpa using hbracket⟩
  | case5 c cs hlast hclosing hescape ih =>
    obtain ⟨_, _, hrest, _⟩ := of_map_count h
    obtain ⟨ms, rest, rfl, hbackslash, hbracket⟩ := ih hrest
    have hc : c ≠ '\\' := by
      rintro rfl
      cases hms : ms.flatMap source ++ ']' :: rest with
      | nil => simp at hms
      | cons d ds => exact hescape d ds rfl hms
    have hc' : c ≠ ']' := fun hc' => hclosing hc'
    refine ⟨.plain c :: ms, rest, rfl, ?_, ?_⟩
    · simpa [hc.symm] using hbackslash
    · simpa [hc'.symm] using hbracket

theorem firstMembers?_sound {cs chars : List Char} {n : Nat}
    (h : firstMembers? cs = some (chars, n)) :
    ∃ (ms : List WrittenMember) (rest : List Char), cs = ms.flatMap source ++ ']' :: rest ∧
      ms ≠ [] ∧ .plain '\\' ∉ ms ∧ .plain ']' ∉ ms.tail := by
  revert h
  fun_cases firstMembers? cs with
  | case1 cs =>
    intro h
    obtain ⟨_, _, hrest, _⟩ := of_map_count h
    obtain ⟨ms, rest, rfl, hbackslash, hbracket⟩ := members?_sound hrest
    exact ⟨.plain ']' :: ms, rest, rfl, by simp, by simpa using hbackslash, hbracket⟩
  | case2 _ hc =>
    intro h
    obtain ⟨ms, rest, rfl, hbackslash, hbracket⟩ := members?_sound h
    refine ⟨ms, rest, rfl, ?_, hbackslash, fun hmem => hbracket (List.mem_of_mem_tail hmem)⟩
    rintro rfl
    exact hc rest rfl

theorem bracket?_sound {cs : List Char} {found : PatternToken × Nat}
    (h : bracket? cs = some found) :
    ∃ negated mark ms rest, Mark negated mark ∧ Closed negated ms ∧ cs = inside mark ms ++ rest := by
  revert h
  fun_cases bracket? cs with
  | case1 => simp
  | case2 c cs hc =>
    intro h
    obtain ⟨⟨chars, n⟩, hfound, _⟩ := Option.map_eq_some_iff.mp h
    obtain ⟨ms, rest, rfl, hne, hbackslash, hbracket⟩ := firstMembers?_sound hfound
    have hclosed : Closed true ms := ⟨hne, hbackslash, hbracket, by simp⟩
    have hmark : Mark true [c] := by
      rcases (by simpa using hc : c = '!' ∨ c = '^') with rfl | rfl
      · exact .exclamation
      · exact .caret
    exact ⟨true, [c], ms, rest, hmark, hclosed, by simp [inside]⟩
  | case3 c cs hc =>
    intro h
    obtain ⟨⟨chars, n⟩, hfound, _⟩ := Option.map_eq_some_iff.mp h
    obtain ⟨ms, rest, hcs, hne, hbackslash, hbracket⟩ := firstMembers?_sound hfound
    have hhead : ms.head? ≠ some (.plain '!') ∧ ms.head? ≠ some (.plain '^') := by
      obtain ⟨m, ms, rfl⟩ := List.exists_cons_of_ne_nil hne
      constructor <;>
      · intro hm
        obtain rfl := Option.some.inj hm
        simp only [List.flatMap_cons, source, List.cons_append] at hcs
        simp [(List.cons.inj hcs).1] at hc
    exact ⟨false, [], ms, rest, .none, ⟨hne, hbackslash, hbracket, fun _ => hhead⟩,
      by simp [inside, hcs]⟩

/-! ## What is listed -/

/-- Members cut from the left into ranges and single ones, where `makesRange` says which of them may
stand between the ends of a range. A range the wrong way round is three members. -/
inductive Cuts (makesRange : WrittenMember → Prop) : List WrittenMember → List ClassMember → Prop
  | nil : Cuts makesRange [] []
  | range {lo hyphen hi ms items} (h : makesRange hyphen) (le : lo.char ≤ hi.char)
      (rest : Cuts makesRange ms items) :
      Cuts makesRange (lo :: hyphen :: hi :: ms) (.range lo.char hi.char :: items)
  | reversed {lo hyphen hi ms items} (h : makesRange hyphen) (lt : hi.char < lo.char)
      (rest : Cuts makesRange ms items) :
      Cuts makesRange (lo :: hyphen :: hi :: ms)
        (.single lo.char :: .single hyphen.char :: .single hi.char :: items)
  | single {m ms items} (h : ∀ hyphen hi back, ms = hyphen :: hi :: back → ¬makesRange hyphen)
      (rest : Cuts makesRange ms items) : Cuts makesRange (m :: ms) (.single m.char :: items)

/-- A negated bracket expression takes what it does not list, but no slash. -/
def Takes (negated : Bool) (items : List ClassMember) (c : Char) : Prop :=
  if negated then c ≠ '/' ∧ ∀ i ∈ items, i.contains c = false
  else ∃ i ∈ items, i.contains c = true

theorem classItems_single {c : Char} {cs : List Char} (h : ∀ hi back, cs ≠ '-' :: hi :: back) :
    classItems (c :: cs) = .single c :: classItems cs := by
  rw [classItems]
  exact fun hi back heq => h hi back heq

/-- Once the backslashes are gone, every hyphen may make a range. -/
theorem cuts_classItems : (ms : List WrittenMember) →
    Cuts (fun m => m.char = '-') ms (classItems (ms.map char))
  | [] => .nil
  | [m] => .single (by simp) .nil
  | [m, last] => by
    have hlast : Cuts (fun m => m.char = '-') [last] (classItems ([last].map char)) :=
      cuts_classItems [last]
    rw [List.map_cons, classItems_single (by simp)]
    exact .single (by simp) hlast
  | lo :: hyphen :: hi :: ms => by
    by_cases hhyphen : hyphen.char = '-'
    · have hrest := cuts_classItems ms
      rw [List.map_cons, List.map_cons, List.map_cons, hhyphen, classItems]
      split
      next hle => exact .range hhyphen hle hrest
      next hlt =>
        have hreversed := Cuts.reversed hhyphen (Char.not_le.mp hlt) hrest
        rwa [hhyphen] at hreversed
    · have hrest := cuts_classItems (hyphen :: hi :: ms)
      have hnone : ∀ first back, (hyphen :: hi :: ms).map char ≠ '-' :: first :: back := by
        intro first back heq
        exact hhyphen (List.cons.inj heq).1
      rw [List.map_cons, classItems_single hnone]
      refine .single ?_ hrest
      intro h first back heq
      rwa [← (List.cons.inj heq).1]

theorem Cuts.of_any {ms : List WrittenMember} {items : List ClassMember}
    (h : Cuts (fun m => m.char = '-') ms items)
    (hends : ∀ front back, ms = front ++ .escaped '-' :: back → front = [] ∨ back = []) :
    Cuts (· = .plain '-') ms items := by
  have hplain : ∀ {m : WrittenMember}, m.char = '-' → m ≠ .escaped '-' → m = .plain '-' := by
    intro m hm hne
    cases m with
    | plain c => exact congrArg _ hm
    | escaped c => exact absurd (congrArg _ hm) hne
  have hbehind : ∀ front ms : List WrittenMember,
      (∀ f b, front ++ ms = f ++ .escaped '-' :: b → f = [] ∨ b = []) →
      ∀ f b, ms = f ++ .escaped '-' :: b → f = [] ∨ b = [] := by
    rintro front _ hall f b rfl
    exact (hall (front ++ f) b (by simp)).imp_left fun hf => (List.append_eq_nil_iff.mp hf).2
  induction h with
  | nil => exact .nil
  | @range lo hyphen hi ms items h le rest ih =>
    have hne : hyphen ≠ .escaped '-' := by
      rintro rfl
      simpa using hends [lo] (hi :: ms) rfl
    exact .range (hplain h hne) le (ih (hbehind [lo, hyphen, hi] ms hends))
  | @reversed lo hyphen hi ms items h lt rest ih =>
    have hne : hyphen ≠ .escaped '-' := by
      rintro rfl
      simpa using hends [lo] (hi :: ms) rfl
    exact .reversed (hplain h hne) lt (ih (hbehind [lo, hyphen, hi] ms hends))
  | @single m ms items h rest ih =>
    refine .single ?_ (ih (hbehind [m] ms hends))
    rintro hyphen hi back heq rfl
    exact h _ hi back heq rfl

/-! ## Whole expressions -/

theorem bracket_spans_iff {negated : Bool} {items : List ClassMember} {before text after : List Char} :
    (bracket negated items).piece.Spans before text after ↔
      ∃ c, text = [c] ∧ Takes negated items c := by
  rw [piece_denotes]
  cases negated with
  | false => simp [language, Takes, and_comm]
  | true => simp [language, Takes, and_comm]

theorem scan_closed {negated : Bool} {mark : List Char} {ms : List WrittenMember}
    (hmark : Mark negated mark) (h : Closed negated ms) (rest : List Char) :
    scan ('[' :: (inside mark ms ++ rest)) =
      .bracket negated (classItems (ms.map char)) :: scan rest :=
  scanFrom_of_begins (.bracket (bracket?_source hmark h rest))

/-- A closed bracket expression is one token, and its class takes one character, which its members
list or, if it is negated, do not list. A hyphen between two members makes a range of them, with a
backslash before it or not; where every hyphen behind a backslash is the first member or the last
one, only plain hyphens do. What no bracket closes begins with a literal bracket. -/
theorem scan_bracket (cs : List Char) :
    (∀ negated mark ms rest, Mark negated mark → Closed negated ms → cs = inside mark ms ++ rest →
      ∃ items, Cuts (fun m => m.char = '-') ms items ∧
        ((∀ front back, ms = front ++ .escaped '-' :: back → front = [] ∨ back = []) →
          Cuts (· = .plain '-') ms items) ∧
        scan ('[' :: cs) = .bracket negated items :: scan rest ∧
        Regex.read? (bracket negated items).piece.source = some ⟨[(bracket negated items).piece]⟩ ∧
        ∀ before text after, (bracket negated items).piece.Spans before text after ↔
          ∃ c, text = [c] ∧ Takes negated items c) ∧
    ((∀ negated mark ms rest, Mark negated mark → Closed negated ms → cs ≠ inside mark ms ++ rest) →
      scan ('[' :: cs) = .literal '[' :: scan cs) := by
  constructor
  · rintro negated mark ms rest hmark hclosed rfl
    have hcuts := cuts_classItems ms
    have hbegins : Begins _ _ rest := .bracket (bracket?_source hmark hclosed rest)
    have hread : Regex.read? (Regex.source ⟨[(bracket negated (classItems (ms.map char))).piece]⟩) =
        some ⟨[(bracket negated (classItems (ms.map char))).piece]⟩ :=
      Regex.read?_source (by simpa [Regex.Proper] using hbegins.proper)
    refine ⟨_, hcuts, hcuts.of_any, scan_closed hmark hclosed rest, ?_, fun _ _ _ =>
      bracket_spans_iff⟩
    simpa [Regex.source] using hread
  · intro hopen
    refine scanFrom_of_begins (.openBracket (Option.eq_none_iff_forall_ne_some.mpr ?_))
    intro found hfound
    obtain ⟨negated, mark, ms, rest, hmark, hclosed, hcs⟩ := bracket?_sound hfound
    exact hopen negated mark ms rest hmark hclosed hcs

def negatedMembers : List WrittenMember := [.escaped ']', .plain 'x', .plain '-', .plain 'z']

theorem closed_negatedMembers : Closed true negatedMembers :=
  ⟨by decide, by decide, by decide, by decide⟩

theorem scan_negated_bracket :
    ∃ items, Cuts (fun m => m.char = '-') negatedMembers items ∧
      ((∀ front back, negatedMembers = front ++ .escaped '-' :: back → front = [] ∨ back = []) →
        Cuts (· = .plain '-') negatedMembers items) ∧
      scan ['[', '!', '\\', ']', 'x', '-', 'z', ']', 'q'] = .bracket true items :: scan ['q'] ∧
      Regex.read? (bracket true items).piece.source = some ⟨[(bracket true items).piece]⟩ ∧
      ∀ before text after, (bracket true items).piece.Spans before text after ↔
        ∃ c, text = [c] ∧ Takes true items c :=
  (scan_bracket _).1 true ['!'] negatedMembers ['q'] .exclamation closed_negatedMembers rfl

/-! ### A range behind a backslash -/

def escapedHyphen : List WrittenMember := [.plain 'a', .escaped '-', .plain 'z']

theorem closed_escapedHyphen : Closed false escapedHyphen :=
  ⟨by decide, by decide, by decide, by decide⟩

/-- It is not so that a hyphen behind a backslash stands for itself in every bracket expression. -/
theorem escaped_hyphen_makes_range :
    ¬∀ negated mark ms rest, Mark negated mark → Closed negated ms →
      ∃ token items, scan ('[' :: (inside mark ms ++ rest)) = token :: scan rest ∧
        Cuts (· = .plain '-') ms items ∧
        ∀ before text after, token.piece.Spans before text after ↔
          ∃ c, text = [c] ∧ Takes negated items c := by
  intro h
  obtain ⟨token, items, hscan, hcuts, hspans⟩ := h false [] escapedHyphen [] .none
    closed_escapedHyphen
  have htoken : token = .bracket false [.range 'a' 'z'] := by
    rw [scan_closed .none closed_escapedHyphen] at hscan
    exact (List.cons.inj hscan).1.symm
  have hitems : items = [.single 'a', .single '-', .single 'z'] := by
    cases hcuts with
    | range h => cases h
    | reversed h => cases h
    | single _ rest =>
      cases rest with
      | single _ rest =>
        cases rest with
        | single _ rest =>
          cases rest
          rfl
  subst htoken hitems
  have hm : Takes false [.range 'a' 'z'] 'm' := ⟨_, List.mem_cons_self, by decide⟩
  obtain ⟨c, hc, htakes⟩ := (hspans [] ['m'] []).mp (bracket_spans_iff.mpr ⟨'m', rfl, hm⟩)
  obtain rfl : 'm' = c := by simpa using hc
  simp [Takes, ClassMember.contains] at htakes

end PatternToken

end SourceBundle
