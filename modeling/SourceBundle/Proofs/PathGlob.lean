import SourceBundle.Proofs.PatternScan
import SourceBundle.TextLines

/-!
# Patterns made of components

Patterns without bracket expressions in which two stars either are a component of their own or stand
inside one. The scan, which knows nothing of components, reads them component by component.
-/

namespace SourceBundle

/-! ## Names behind slashes -/

def slashed (names : List (List Char)) : List Char :=
  names.flatMap ('/' :: ·)

theorem slashed_cons (name : List Char) (names : List (List Char)) :
    slashed (name :: names) = '/' :: (name ++ slashed names) := rfl

theorem slashed_append (front back : List (List Char)) :
    slashed (front ++ back) = slashed front ++ slashed back := by
  simp [slashed]

theorem slash_joinWith {names : List (List Char)} (h : names ≠ []) :
    '/' :: joinWith ['/'] names = slashed names := by
  induction names with
  | nil => exact absurd rfl h
  | cons name names ih =>
    cases names with
    | nil => simp [joinWith, slashed]
    | cons next names =>
      rw [slashed_cons, ← ih (by simp)]
      simp [joinWith]

def AtBoundary (text : List Char) : Prop :=
  ∀ c ∈ text.head?, c = '/'

theorem atBoundary_slashed (names : List (List Char)) : AtBoundary (slashed names) := by
  cases names <;> simp [slashed, AtBoundary]

theorem eq_of_boundary {a b x y : List Char} (ha : '/' ∉ a) (hb : '/' ∉ b) (hx : AtBoundary x)
    (hy : AtBoundary y) (h : a ++ x = b ++ y) : a = b ∧ x = y := by
  rcases List.append_eq_append_iff.mp h with ⟨e, hbe, hxe⟩ | ⟨e, hae, hye⟩
  · cases e with
    | nil => simp_all
    | cons c e =>
      have hc : c = '/' := hx c (by simp [hxe])
      exact absurd (by simp [hbe, hc]) hb
  · cases e with
    | nil => simp_all
    | cons c e =>
      have hc : c = '/' := hy c (by simp [hye])
      exact absurd (by simp [hae, hc]) ha

/-- Names without slashes are cut only before a name. -/
theorem exists_of_slashed_eq {names : List (List Char)} {a d : List Char}
    (hnames : ∀ name ∈ names, '/' ∉ name) (h : slashed names = a ++ '/' :: d) :
    ∃ front back, names = front ++ back ∧ slashed front = a ∧ slashed back = '/' :: d := by
  induction names generalizing a with
  | nil => simp [slashed] at h
  | cons name names ih =>
    cases a with
    | nil => exact ⟨[], name :: names, rfl, rfl, h⟩
    | cons c a =>
      obtain ⟨hname, hrest⟩ := List.forall_mem_cons.mp hnames
      rw [slashed_cons, List.cons_append] at h
      obtain ⟨hc, htail⟩ := List.cons.inj h
      rcases List.append_eq_append_iff.mp htail with ⟨e, ha, he⟩ | ⟨e, hn, he⟩
      · obtain ⟨front, back, hsplit, hfront, hback⟩ := ih hrest he
        refine ⟨name :: front, back, by simp [hsplit], ?_, hback⟩
        rw [slashed_cons, hfront, ha, hc]
      · cases e with
        | nil =>
          refine ⟨[name], names, rfl, ?_, he.symm⟩
          rw [slashed_cons, hn, hc]
          simp [slashed]
        | cons c' e =>
          have hc' : '/' = c' := (List.cons.inj he).1
          exact absurd (by simp [hn, ← hc']) hname

theorem getLast?_slashed {names : List (List Char)}
    (hnames : ∀ name ∈ names, name ≠ [] ∧ '/' ∉ name) : (slashed names).getLast? ≠ some '/' := by
  intro h
  obtain ⟨front, hfront⟩ := List.getLast?_eq_some_iff.mp h
  obtain ⟨_, back, hsplit, _, hback⟩ :=
    exists_of_slashed_eq (fun name hname => (hnames name hname).2) hfront
  cases back with
  | nil => simp [slashed] at hback
  | cons name back =>
    rw [slashed_cons] at hback
    have hname : name = [] := by simp_all
    exact (hnames name (by simp [hsplit])).1 hname

/-- A part of a component: a character, written with a backslash or not, or a wildcard. -/
inductive GlobItem where
  | plain (c : Char) (h : c ∉ ['/', '*', '?', '[', '\\'])
  | escaped (c : Char) (h : c ≠ '/')
  | star
  | question
  deriving DecidableEq

namespace GlobItem

def text : GlobItem → List Char
  | .plain c _ => [c]
  | .escaped c _ => ['\\', c]
  | .star => ['*']
  | .question => ['?']

def token : GlobItem → PatternToken
  | .plain c _ => .literal c
  | .escaped c _ => .literal c
  | .star => .star
  | .question => .question

end GlobItem

/-- A component that stands for one name. -/
structure ComponentGlob where
  items : List GlobItem
  nonempty : items ≠ []
  not_begins : ¬[.star, .star] <+: items
  not_ends : ¬[.star, .star] <:+ items

namespace ComponentGlob

def text (glob : ComponentGlob) : List Char :=
  glob.items.flatMap GlobItem.text

def tokens (glob : ComponentGlob) : List PatternToken :=
  glob.items.map GlobItem.token

end ComponentGlob

inductive GlobComponent where
  /-- Two stars alone. -/
  | anyDepth
  | one (glob : ComponentGlob)

namespace GlobComponent

def text : GlobComponent → List Char
  | .anyDepth => ['*', '*']
  | .one glob => glob.text

def below (components : List GlobComponent) : List Char :=
  slashed (components.map text)

end GlobComponent

structure PathGlob where
  components : List GlobComponent
  nonempty : components ≠ []
  separate : ¬[.anyDepth, .anyDepth] <:+: components

def PathGlob.text (glob : PathGlob) : List Char :=
  joinWith ['/'] (glob.components.map GlobComponent.text)

/-! ## Where items begin and end -/

namespace GlobItem

variable {items : List GlobItem} {after : List Char}

theorem slash_not_mem (item : GlobItem) : '/' ∉ item.text := by
  cases item with
  | plain c h =>
    have hc : '/' ≠ c := fun he => h (he ▸ by simp)
    simpa [text] using hc
  | escaped c h => simpa [text] using Ne.symm h
  | star => decide
  | question => decide

theorem text_ne_nil (item : GlobItem) : item.text ≠ [] := by
  cases item <;> simp [text]

theorem eq_star_of_begins {item : GlobItem} {rest : List Char}
    (h : ['*'] <+: item.text ++ rest) : item = .star := by
  cases item with
  | plain c hc =>
    have he : '*' = c := by simpa [text] using h
    exact absurd (he ▸ by simp) hc
  | escaped c => simp [text] at h
  | star => rfl
  | question => simp [text] at h

theorem exists_star_cons (hafter : AtBoundary after)
    (h : ['*'] <+: items.flatMap text ++ after) : ∃ items', items = .star :: items' := by
  cases items with
  | nil =>
    obtain ⟨rest, he⟩ := h
    have hhead : after.head? = some '*' := congrArg List.head? he.symm
    exact absurd (hafter '*' hhead) (by decide)
  | cons item items =>
    rw [List.flatMap_cons, List.append_assoc] at h
    exact ⟨items, eq_star_of_begins h ▸ rfl⟩

theorem eq_nil_of_slash (h : ['/'] <+: items.flatMap text ++ after) : items = [] := by
  cases items with
  | nil => rfl
  | cons item items =>
    rw [List.flatMap_cons, List.append_assoc] at h
    obtain ⟨c, cs, hc⟩ := List.exists_cons_of_ne_nil item.text_ne_nil
    have hslash : '/' = c := by simpa [hc] using h
    exact absurd (by simp [hc, ← hslash]) item.slash_not_mem

theorem exists_stars_cons (hafter : AtBoundary after)
    (h : ['*', '*'] <+: items.flatMap text ++ after) : [.star, .star] <+: items := by
  obtain ⟨items', rfl⟩ := exists_star_cons hafter ((List.prefix_append ['*'] ['*']).trans h)
  have htail : ['*'] <+: items'.flatMap text ++ after := by simpa [text] using h
  obtain ⟨items'', rfl⟩ := exists_star_cons hafter htail
  exact ⟨items'', rfl⟩

/-! ## Items are read one by one -/

theorem begins {item : GlobItem} (hafter : AtBoundary after)
    (hends : ¬[.star, .star] <:+ item :: items) :
    item.token.Begins (item.text ++ (items.flatMap text ++ after)) (items.flatMap text ++ after) := by
  cases item with
  | plain c h =>
    refine .plain (fun hc => h (List.mem_cons_of_mem _ hc)) fun he => ?_
    exact absurd (he ▸ by simp) h
  | escaped => exact .escaped
  | star =>
    refine .star fun h => hends ?_
    obtain ⟨items', rfl⟩ := exists_star_cons hafter ((List.prefix_append ['*'] ['/']).trans h)
    have hslash : ['/'] <+: items'.flatMap text ++ after := by simpa [text] using h
    exact eq_nil_of_slash hslash ▸ List.suffix_rfl
  | question => exact .question

theorem scan_append (hafter : AtBoundary after) (hends : ¬[.star, .star] <:+ items) :
    PatternToken.scan (items.flatMap text ++ after) =
      items.map token ++ PatternToken.scan after := by
  induction items with
  | nil => rfl
  | cons item items ih =>
    have htail : ¬[.star, .star] <:+ items := fun h => hends (h.trans (List.suffix_cons _ _))
    rw [List.flatMap_cons, List.append_assoc, PatternToken.scan,
      PatternToken.scanFrom_of_begins (begins hafter hends)]
    exact congrArg (item.token :: ·) (ih htail)

end GlobItem

/-! ## Components are read one by one -/

namespace ComponentGlob

variable {after : List Char}

theorem not_slash_begins (glob : ComponentGlob) : ¬['/'] <+: glob.text ++ after :=
  fun h => glob.nonempty (GlobItem.eq_nil_of_slash h)

theorem not_stars_begin (glob : ComponentGlob) (hafter : AtBoundary after) :
    ¬['*', '*'] <+: glob.text ++ after :=
  fun h => glob.not_begins (GlobItem.exists_stars_cons hafter h)

theorem scan_append (glob : ComponentGlob) (hafter : AtBoundary after) :
    PatternToken.scan (glob.text ++ after) = glob.tokens ++ PatternToken.scan after :=
  GlobItem.scan_append hafter glob.not_ends

end ComponentGlob

namespace GlobComponent

theorem atBoundary_below (components : List GlobComponent) : AtBoundary (below components) :=
  atBoundary_slashed _

theorem slash_not_mem (component : GlobComponent) : '/' ∉ component.text := by
  cases component with
  | anyDepth => decide
  | one glob =>
    intro h
    obtain ⟨item, _, hitem⟩ := List.mem_flatMap.mp h
    exact item.slash_not_mem hitem

theorem text_ne_nil (component : GlobComponent) : component.text ≠ [] := by
  cases component with
  | anyDepth => simp [text]
  | one glob =>
    obtain ⟨item, items, hitems⟩ := List.exists_cons_of_ne_nil glob.nonempty
    simp [text, ComponentGlob.text, hitems, item.text_ne_nil]

inductive Separate : List GlobComponent → Prop
  | nil : Separate []
  | one {glob components} (h : Separate components) : Separate (.one glob :: components)
  | last : Separate [.anyDepth]
  | between {glob components} (h : Separate (.one glob :: components)) :
      Separate (.anyDepth :: .one glob :: components)

theorem separate_of_not_infix {components : List GlobComponent}
    (h : ¬[.anyDepth, .anyDepth] <:+: components) : Separate components := by
  induction components with
  | nil => exact .nil
  | cons component components ih =>
    have htail := ih fun hi => h (hi.trans (List.suffix_cons _ _).isInfix)
    cases component with
    | one glob => exact .one htail
    | anyDepth =>
      cases htail with
      | nil => exact .last
      | one htail => exact .between (.one htail)
      | last => exact absurd ⟨[], [], rfl⟩ h
      | between => exact absurd ⟨[], _, rfl⟩ h

variable (glob : ComponentGlob) (components : List GlobComponent)

theorem scan_below_one :
    PatternToken.scan (below (.one glob :: components)) =
      .literal '/' :: (glob.tokens ++ PatternToken.scan (below components)) := by
  have hbegins : PatternToken.Begins (.literal '/') (below (.one glob :: components))
      (glob.text ++ below components) :=
    .plain (by decide) fun _ => glob.not_stars_begin (atBoundary_below components)
  rw [← glob.scan_append (atBoundary_below components), PatternToken.scan,
    PatternToken.scanFrom_of_begins hbegins]
  rfl

theorem scan_below_between :
    PatternToken.scan (below (.anyDepth :: .one glob :: components)) =
      .between :: (glob.tokens ++ PatternToken.scan (below components)) := by
  have hbegins : PatternToken.Begins .between (below (.anyDepth :: .one glob :: components))
      (glob.text ++ below components) := .between
  rw [← glob.scan_append (atBoundary_below components), PatternToken.scan,
    PatternToken.scanFrom_of_begins hbegins]
  rfl

theorem scan_below_anyDepth : PatternToken.scan (below [.anyDepth]) = [.trailing] := rfl

end GlobComponent

/-! ## Whole patterns -/

theorem PathPattern.ofChars_of_begins {anchor : Anchor} {pattern body : List Char}
    (h : anchor.Begins pattern body) (hlast : pattern.getLast? ≠ some '/') :
    PathPattern.ofChars pattern = ⟨anchor, PatternToken.scan body, false⟩ := by
  simp [ofChars, h.split_eq, hlast]

namespace PathGlob

theorem slash_text (glob : PathGlob) : '/' :: glob.text = GlobComponent.below glob.components :=
  slash_joinWith (by simpa using glob.nonempty)

theorem getLast?_text (glob : PathGlob) : glob.text.getLast? ≠ some '/' := by
  have hlast : ('/' :: glob.text).getLast? ≠ some '/' := by
    rw [slash_text]
    refine getLast?_slashed ?_
    simpa using fun component _ => ⟨component.text_ne_nil, component.slash_not_mem⟩
  intro h
  obtain ⟨front, hfront⟩ := List.getLast?_eq_some_iff.mp h
  exact hlast (by rw [hfront, ← List.cons_append, List.getLast?_concat])

variable {glob : PathGlob} {first : ComponentGlob} {components : List GlobComponent}

theorem ofChars_of_one (h : glob.components = .one first :: components) :
    PathPattern.ofChars glob.text =
      ⟨.bare, first.tokens ++ PatternToken.scan (GlobComponent.below components), false⟩ := by
  have hbelow := GlobComponent.atBoundary_below components
  have htext : glob.text = first.text ++ GlobComponent.below components := by
    have hslash := glob.slash_text
    rw [h] at hslash
    exact (List.cons.inj hslash).2
  have hbegins : Anchor.Begins .bare glob.text glob.text := by
    rw [htext]
    refine .bare first.not_slash_begins fun hstars => ?_
    exact first.not_stars_begin hbelow ((List.prefix_append ['*', '*'] ['/']).trans hstars)
  rw [PathPattern.ofChars_of_begins hbegins glob.getLast?_text, htext, first.scan_append hbelow]

theorem ofChars_of_anyDepth_one (h : glob.components = .anyDepth :: .one first :: components) :
    PathPattern.ofChars glob.text =
      ⟨.anyDepth, first.tokens ++ PatternToken.scan (GlobComponent.below components), false⟩ := by
  have hbelow := GlobComponent.atBoundary_below components
  have htext : glob.text = '*' :: '*' :: '/' :: (first.text ++ GlobComponent.below components) := by
    have hslash := glob.slash_text
    rw [h] at hslash
    exact (List.cons.inj hslash).2
  have hbegins : Anchor.Begins .anyDepth glob.text (first.text ++ GlobComponent.below components) :=
    htext ▸ .anyDepth
  rw [PathPattern.ofChars_of_begins hbegins glob.getLast?_text, first.scan_append hbelow]

theorem ofChars_of_anyDepth (h : glob.components = [.anyDepth]) :
    PathPattern.ofChars glob.text = ⟨.bare, [.star, .star], false⟩ := by
  have htext : glob.text = ['*', '*'] := by
    rw [text, h]
    rfl
  rw [htext]
  rfl

end PathGlob

end SourceBundle
