import Mathlib.Data.List.Basic
import SourceBundle.JsonText

/-!
# JSON texts are read back

A reader of JSON texts, whoever wrote them: spaces may stand between all tokens, characters may be
escaped in every way there is, and there are numbers and nulls. It takes the layout of a value back
to that value, whatever characters its texts hold.
-/

namespace SourceBundle

/-- What a JSON text says. A number is kept as it is written. -/
inductive Json where
  | null
  | flag (b : Bool)
  | number (source : String)
  | text (s : String)
  | list (values : List Json)
  | record (fields : List (String × Json))
  deriving Repr

namespace Json

/-! ## Spaces and numbers -/

def isSpace (c : Char) : Bool :=
  c == ' ' || c == '\t' || c == '\n' || c == '\r'

def skipSpace (cs : List Char) : List Char :=
  cs.dropWhile isSpace

def readDigits? (cs : List Char) : Option (List Char × List Char) :=
  match cs.takeWhile Char.isDigit with
  | [] => none
  | digits => some (digits, cs.dropWhile Char.isDigit)

def readInteger? : List Char → Option (List Char × List Char)
  | '0' :: cs => some (['0'], cs)
  | cs => readDigits? cs

def readFraction? : List Char → Option (List Char × List Char)
  | '.' :: cs => do
    let (digits, cs) ← readDigits? cs
    some ('.' :: digits, cs)
  | cs => some ([], cs)

def readSign : List Char → List Char × List Char
  | '+' :: cs => (['+'], cs)
  | '-' :: cs => (['-'], cs)
  | cs => ([], cs)

def readExponent? : List Char → Option (List Char × List Char)
  | [] => some ([], [])
  | c :: cs =>
    if c == 'e' || c == 'E' then do
      let (sign, cs) := readSign cs
      let (digits, cs) ← readDigits? cs
      some (c :: sign ++ digits, cs)
    else some ([], c :: cs)

def readUnsigned? (cs : List Char) : Option (List Char × List Char) := do
  let (integer, cs) ← readInteger? cs
  let (fraction, cs) ← readFraction? cs
  let (exponent, cs) ← readExponent? cs
  some (integer ++ fraction ++ exponent, cs)

def readNumber? : List Char → Option (List Char × List Char)
  | '-' :: cs => do
    let (source, cs) ← readUnsigned? cs
    some ('-' :: source, cs)
  | cs => readUnsigned? cs

/-! ## Strings -/

def hexValue? (c : Char) : Option Nat :=
  if c.isDigit then some (c.toNat - '0'.toNat)
  else if 'a' ≤ c && c ≤ 'f' then some (c.toNat - 'a'.toNat + 10)
  else if 'A' ≤ c && c ≤ 'F' then some (c.toNat - 'A'.toNat + 10)
  else none

def readUnit? : List Char → Option (Nat × List Char)
  | a :: b :: c :: d :: cs => do
    let high := 16 * (← hexValue? a) + (← hexValue? b)
    let low := 16 * (← hexValue? c) + (← hexValue? d)
    some (256 * high + low, cs)
  | _ => none

/-- The character of one code unit or of a pair. Half a pair is no character. -/
def readUnicode? (cs : List Char) : Option (Char × List Char) := do
  let (unit, cs) ← readUnit? cs
  if 0xDC00 ≤ unit && unit < 0xE000 then none
  else if 0xD800 ≤ unit && unit < 0xDC00 then
    match cs with
    | '\\' :: 'u' :: cs => do
      let (low, cs) ← readUnit? cs
      if 0xDC00 ≤ low && low < 0xE000 then
        some (Char.ofNat (0x10000 + 0x400 * (unit - 0xD800) + (low - 0xDC00)), cs)
      else none
    | _ => none
  else some (Char.ofNat unit, cs)

def readEscape? : List Char → Option (Char × List Char)
  | '"' :: cs => some ('"', cs)
  | '\\' :: cs => some ('\\', cs)
  | '/' :: cs => some ('/', cs)
  | 'b' :: cs => some ('\x08', cs)
  | 'f' :: cs => some ('\x0c', cs)
  | 'n' :: cs => some ('\n', cs)
  | 'r' :: cs => some ('\r', cs)
  | 't' :: cs => some ('\t', cs)
  | 'u' :: cs => readUnicode? cs
  | _ => none

/-- The characters up to the closing quotation mark; `fuel` bounds their number. -/
def readString? : Nat → List Char → Option (List Char × List Char)
  | 0, _ => none
  | _ + 1, [] => none
  | fuel + 1, c :: cs =>
    if c == '"' then some ([], cs)
    else if c == '\\' then do
      let (c, cs) ← readEscape? cs
      let (s, cs) ← readString? fuel cs
      some (c :: s, cs)
    else if c.toNat < 0x20 then none
    else do
      let (s, cs) ← readString? fuel cs
      some (c :: s, cs)

/-! ## Values -/

def readName? (cs : List Char) : Option (String × List Char) :=
  match skipSpace cs with
  | '"' :: cs => do
    let (name, cs) ← readString? cs.length cs
    match skipSpace cs with
    | ':' :: cs => some (String.ofList name, cs)
    | _ => none
  | _ => none

mutual

/-- A value behind any number of spaces; `fuel` bounds the number of tokens. -/
def readValue? : Nat → List Char → Option (Json × List Char)
  | 0, _ => none
  | fuel + 1, cs =>
    match skipSpace cs with
    | 'n' :: 'u' :: 'l' :: 'l' :: cs => some (.null, cs)
    | 't' :: 'r' :: 'u' :: 'e' :: cs => some (.flag true, cs)
    | 'f' :: 'a' :: 'l' :: 's' :: 'e' :: cs => some (.flag false, cs)
    | '"' :: cs => do
      let (s, cs) ← readString? cs.length cs
      some (.text (String.ofList s), cs)
    | '[' :: cs =>
      match skipSpace cs with
      | ']' :: cs => some (.list [], cs)
      | cs => do
        let (values, cs) ← readValues? fuel cs
        some (.list values, cs)
    | '\x7b' :: cs =>
      match skipSpace cs with
      | '\x7d' :: cs => some (.record [], cs)
      | cs => do
        let (fields, cs) ← readFields? fuel cs
        some (.record fields, cs)
    | cs => do
      let (source, cs) ← readNumber? cs
      some (.number (String.ofList source), cs)

def readValues? : Nat → List Char → Option (List Json × List Char)
  | 0, _ => none
  | fuel + 1, cs => do
    let (v, cs) ← readValue? fuel cs
    match skipSpace cs with
    | ']' :: cs => some ([v], cs)
    | ',' :: cs => do
      let (vs, cs) ← readValues? fuel cs
      some (v :: vs, cs)
    | _ => none

def readFields? : Nat → List Char → Option (List (String × Json) × List Char)
  | 0, _ => none
  | fuel + 1, cs => do
    let (name, cs) ← readName? cs
    let (v, cs) ← readValue? fuel cs
    match skipSpace cs with
    | '\x7d' :: cs => some ([(name, v)], cs)
    | ',' :: cs => do
      let (fields, cs) ← readFields? fuel cs
      some ((name, v) :: fields, cs)
    | _ => none

end

/-- The value that a whole text writes, if it writes one. No value has two tokens for each of its
characters. -/
def read? (source : String) : Option Json := do
  let (v, cs) ← readValue? (2 * source.length) source.toList
  if (skipSpace cs).isEmpty then some v else none

end Json

/-! ## Layouts are read back -/

namespace JsonValue

mutual

/-- What the layout of a value says. -/
def meaning : JsonValue → Json
  | .text s => .text s
  | .flag b => .flag b
  | .list values => .list (meanings values)
  | .record fields => .record (fieldMeanings fields)
termination_by structural v => v

def meanings : List JsonValue → List Json
  | [] => []
  | v :: vs => v.meaning :: meanings vs
termination_by structural vs => vs

def fieldMeanings : List (String × JsonValue) → List (String × Json)
  | [] => []
  | (name, v) :: fields => (name, v.meaning) :: fieldMeanings fields
termination_by structural fields => fields

end

end JsonValue

namespace Json

open JsonValue

theorem hexValue?_hexDigit {n : Nat} (h : n < 16) : hexValue? (hexDigit n) = some n := by
  revert n
  decide

theorem readUnicode?_control {c : Char} (h : c.toNat < 0x20) (rest : List Char) :
    readUnicode? ('0' :: '0' :: hexDigit (c.toNat / 16) :: hexDigit (c.toNat % 16) :: rest) =
      some (c, rest) := by
  have hzero : hexValue? '0' = some 0 := by decide
  have hhigh := hexValue?_hexDigit (n := c.toNat / 16) (by omega)
  have hlow := hexValue?_hexDigit (n := c.toNat % 16) (by omega)
  have hunit : 16 * (c.toNat / 16) + c.toNat % 16 = c.toNat := Nat.div_add_mod _ _
  have hhalf : ¬0xDC00 ≤ c.toNat := by omega
  have hpair : ¬0xD800 ≤ c.toNat := by omega
  simp [readUnicode?, readUnit?, hzero, hhigh, hlow, hunit, hhalf, hpair]

theorem readString?_escapeChar (c : Char) (fuel : Nat) (rest : List Char) :
    readString? (fuel + 1) (escapeChar c ++ rest) = (do
      let (s, rest) ← readString? fuel rest
      some (c :: s, rest)) := by
  fun_cases escapeChar c with
  | case1 h =>
    rcases Bool.or_eq_true_iff.mp h with h | h
    · rw [beq_iff_eq.mp h]
      rfl
    · rw [beq_iff_eq.mp h]
      rfl
  | case2 _ h | case3 _ _ h | case4 _ _ _ h | case5 _ _ _ _ h | case6 _ _ _ _ _ h =>
    rw [beq_iff_eq.mp h]
    rfl
  | case7 _ _ _ _ _ _ h =>
    rw [List.cons_append, List.cons_append, readString?, if_neg (by decide), if_pos (by decide)]
    simp [readEscape?, readUnicode?_control h]
  | case8 h _ _ _ _ _ hcontrol =>
    obtain ⟨hquote, hslash⟩ := not_or.mp (mt Bool.or_eq_true_iff.mpr h)
    rw [List.singleton_append, readString?, if_neg hquote, if_neg hslash, if_neg hcontrol]

theorem readString?_escaped (cs rest : List Char) {fuel : Nat} (hf : cs.length < fuel) :
    readString? fuel (cs.flatMap escapeChar ++ '"' :: rest) = some (cs, rest) := by
  induction cs generalizing fuel with
  | nil =>
    obtain ⟨fuel, rfl⟩ := Nat.exists_eq_add_of_le' hf
    rfl
  | cons c cs ih =>
    obtain ⟨fuel, rfl⟩ := Nat.exists_eq_add_of_le' (Nat.zero_lt_of_lt hf)
    rw [List.flatMap_cons, List.append_assoc, readString?_escapeChar, ih (Nat.lt_of_succ_lt_succ hf)]
    rfl

theorem length_le_escaped (cs : List Char) : cs.length ≤ (cs.flatMap escapeChar).length := by
  induction cs with
  | nil => exact Nat.le_refl _
  | cons c cs ih =>
    have hc : 1 ≤ (escapeChar c).length := by
      fun_cases escapeChar c <;> simp
    rw [List.flatMap_cons, List.length_append, List.length_cons]
    omega

theorem readString?_quoted (s : String) (rest : List Char) :
    readString? (s.toList.flatMap escapeChar ++ '"' :: rest).length
      (s.toList.flatMap escapeChar ++ '"' :: rest) = some (s.toList, rest) := by
  refine readString?_escaped s.toList rest ?_
  have := length_le_escaped s.toList
  rw [List.length_append, List.length_cons]
  omega

/-! ### Values -/

theorem skipSpace_newline (depth : Nat) (cs : List Char) :
    skipSpace (newline depth ++ cs) = skipSpace cs := by
  have hspaces : ∀ n, skipSpace (List.replicate n ' ' ++ cs) = skipSpace cs := by
    intro n
    induction n with
    | zero => rfl
    | succ n ih => exact ih
  exact hspaces (2 * depth)

theorem readValue?_newline (fuel depth : Nat) (cs : List Char) :
    readValue? fuel (newline depth ++ cs) = readValue? fuel cs := by
  cases fuel with
  | zero => rfl
  | succ fuel => rw [readValue?, readValue?, skipSpace_newline]

theorem readName?_newline (depth : Nat) (cs : List Char) :
    readName? (newline depth ++ cs) = readName? cs := by
  rw [readName?, readName?, skipSpace_newline]

theorem readName?_quote (name : String) (rest : List Char) :
    readName? (quote name ++ ": ".toList ++ rest) = some (name, ' ' :: rest) := by
  have hquote : quote name ++ ": ".toList ++ rest =
      '"' :: (name.toList.flatMap escapeChar ++ '"' :: ':' :: ' ' :: rest) := by
    simp [quote]
  have hspace : isSpace '"' = false := by decide
  rw [hquote, readName?, skipSpace, List.dropWhile_cons_of_neg (by simp [hspace])]
  simp only [readString?_quoted]
  simp [skipSpace, isSpace]

theorem layout_begins (v : JsonValue) (depth : Nat) :
    ∃ c cs, v.layout depth = c :: cs ∧ isSpace c = false ∧ c ≠ ']' := by
  cases v with
  | text s => exact ⟨'"', _, by rw [layout, quote]; rfl, by decide, by decide⟩
  | flag b => cases b <;> exact ⟨_, _, rfl, by decide, by decide⟩
  | list values => cases values <;> exact ⟨'[', _, rfl, by decide, by decide⟩
  | record fields => cases fields <;> exact ⟨'\x7b', _, rfl, by decide, by decide⟩

def itemsText (depth : Nat) : List JsonValue → List Char
  | [] => []
  | v :: vs => v.layout depth ++ layoutValues depth vs

def fieldsText (depth : Nat) : List (String × JsonValue) → List Char
  | [] => []
  | (name, v) :: fields =>
    quote name ++ ": ".toList ++ v.layout depth ++ layoutFields depth fields

theorem layoutValues_cons (depth : Nat) (v : JsonValue) (vs : List JsonValue) :
    layoutValues depth (v :: vs) = ',' :: newline depth ++ itemsText depth (v :: vs) := by
  simp [layoutValues, itemsText]

theorem layoutFields_cons (depth : Nat) (field : String × JsonValue)
    (fields : List (String × JsonValue)) :
    layoutFields depth (field :: fields) =
      ',' :: newline depth ++ fieldsText depth (field :: fields) := by
  simp [layoutFields, fieldsText]

theorem layout_list_cons (depth : Nat) (v : JsonValue) (vs : List JsonValue) :
    (JsonValue.list (v :: vs)).layout depth =
      '[' :: newline (depth + 1) ++ itemsText (depth + 1) (v :: vs) ++ newline depth ++ [']'] := by
  simp [layout, itemsText]

theorem layout_record_cons (depth : Nat) (field : String × JsonValue)
    (fields : List (String × JsonValue)) :
    (JsonValue.record (field :: fields)).layout depth =
      '\x7b' :: newline (depth + 1) ++ fieldsText (depth + 1) (field :: fields) ++
        newline depth ++ ['\x7d'] := by
  simp [layout, fieldsText]

theorem fieldsText_begins (depth : Nat) (field : String × JsonValue)
    (fields : List (String × JsonValue)) :
    ∃ cs, fieldsText depth (field :: fields) = '"' :: cs :=
  ⟨_, rfl⟩

theorem skipSpace_of_begins {c : Char} {cs : List Char} (h : isSpace c = false) :
    skipSpace (c :: cs) = c :: cs :=
  List.dropWhile_cons_of_neg (by simp [h])

theorem readValues?_newline (fuel depth : Nat) (cs : List Char) :
    readValues? fuel (newline depth ++ cs) = readValues? fuel cs := by
  cases fuel with
  | zero => rfl
  | succ fuel => rw [readValues?, readValues?, readValue?_newline]

theorem readFields?_newline (fuel depth : Nat) (cs : List Char) :
    readFields? fuel (newline depth ++ cs) = readFields? fuel cs := by
  cases fuel with
  | zero => rfl
  | succ fuel => rw [readFields?, readFields?, readName?_newline]

theorem readValue?_list (depth : Nat) {fuel : Nat} {cs rest : List Char} {c : Char}
    {values : List Json} (hc : isSpace c = false) (hclose : c ≠ ']')
    (h : readValues? fuel (c :: cs) = some (values, rest)) :
    readValue? (fuel + 1) ('[' :: newline depth ++ c :: cs) = some (.list values, rest) := by
  rw [readValue?, List.cons_append, skipSpace_of_begins (by decide)]
  simp only [skipSpace_newline, skipSpace_of_begins hc]
  split
  · simp_all
  · simp_all

theorem readValue?_record (depth : Nat) {fuel : Nat} {cs rest : List Char}
    {fields : List (String × Json)}
    (h : readFields? fuel ('"' :: cs) = some (fields, rest)) :
    readValue? (fuel + 1) ('\x7b' :: newline depth ++ '"' :: cs) = some (.record fields, rest) := by
  rw [readValue?, List.cons_append, skipSpace_of_begins (by decide)]
  simp only [skipSpace_newline, skipSpace_of_begins (show isSpace '"' = false by decide)]
  simp [h]

theorem readValues?_last {fuel depth : Nat} {cs rest : List Char} {v : Json}
    (h : readValue? fuel cs = some (v, newline depth ++ ']' :: rest)) :
    readValues? (fuel + 1) cs = some ([v], rest) := by
  have hclose : skipSpace (']' :: rest) = ']' :: rest := skipSpace_of_begins (by decide)
  simp [readValues?, h, skipSpace_newline, hclose]

theorem readValues?_more {fuel : Nat} {cs cs' rest : List Char} {v : Json} {vs : List Json}
    (h : readValue? fuel cs = some (v, ',' :: cs'))
    (hmore : readValues? fuel cs' = some (vs, rest)) :
    readValues? (fuel + 1) cs = some (v :: vs, rest) := by
  have hcomma : skipSpace (',' :: cs') = ',' :: cs' := skipSpace_of_begins (by decide)
  simp [readValues?, h, hcomma, hmore]

theorem readValue?_space (fuel : Nat) (cs : List Char) :
    readValue? fuel (' ' :: cs) = readValue? fuel cs := by
  cases fuel with
  | zero => rfl
  | succ fuel => rfl

theorem readFields?_last {fuel depth : Nat} {cs rest : List Char} (name : String) {v : Json}
    (h : readValue? fuel cs = some (v, newline depth ++ '\x7d' :: rest)) :
    readFields? (fuel + 1) (quote name ++ ": ".toList ++ cs) = some ([(name, v)], rest) := by
  have hclose : skipSpace ('\x7d' :: rest) = '\x7d' :: rest := skipSpace_of_begins (by decide)
  rw [readFields?, readName?_quote]
  simp [readValue?_space, h, skipSpace_newline, hclose]

theorem readFields?_more {fuel : Nat} {cs cs' rest : List Char} (name : String) {v : Json}
    {fields : List (String × Json)} (h : readValue? fuel cs = some (v, ',' :: cs'))
    (hmore : readFields? fuel cs' = some (fields, rest)) :
    readFields? (fuel + 1) (quote name ++ ": ".toList ++ cs) = some ((name, v) :: fields, rest) := by
  have hcomma : skipSpace (',' :: cs') = ',' :: cs' := skipSpace_of_begins (by decide)
  rw [readFields?, readName?_quote]
  simp [readValue?_space, h, hcomma, hmore]

theorem length_layout_pos (v : JsonValue) (depth : Nat) : 0 < (v.layout depth).length := by
  obtain ⟨c, cs, hlayout, _⟩ := layout_begins v depth
  simp [hlayout]

/-! The induction is on the value. Of the steps that read a value or the rest of a list, two at most
pass without a character, so twice the length of the layout is fuel enough. -/

mutual

theorem readValue?_layout : (v : JsonValue) → (depth : Nat) → (rest : List Char) → (fuel : Nat) →
    2 * (v.layout depth).length ≤ fuel →
      readValue? fuel (v.layout depth ++ rest) = some (v.meaning, rest)
  | v, depth, rest, 0, hf => by
    have := length_layout_pos v depth
    omega
  | .text s, depth, rest, fuel + 1, hf => by
    have hlayout : (JsonValue.text s).layout depth ++ rest =
        '"' :: (s.toList.flatMap escapeChar ++ '"' :: rest) := by
      simp [layout, quote]
    rw [hlayout, readValue?, skipSpace_of_begins (by decide)]
    simp only [readString?_quoted]
    simp [meaning]
  | .flag b, depth, rest, fuel + 1, hf => by cases b <;> rfl
  | .list [], depth, rest, fuel + 1, hf => rfl
  | .list (v :: vs), depth, rest, fuel + 1, hf => by
    obtain ⟨c, cs, hlayout, hc, hclose⟩ := layout_begins v (depth + 1)
    have hitems : itemsText (depth + 1) (v :: vs) = c :: (cs ++ layoutValues (depth + 1) vs) := by
      simp [itemsText, hlayout]
    have hread := readValues?_layout (v :: vs) depth (depth + 1) rest fuel (List.cons_ne_nil v vs)
      (by simp [layout_list_cons] at hf; omega)
    rw [hitems] at hread
    simpa [layout_list_cons, hitems, meaning] using readValue?_list (depth + 1) hc hclose hread
  | .record [], depth, rest, fuel + 1, hf => rfl
  | .record ((name, v) :: fields), depth, rest, fuel + 1, hf => by
    have hread := readFields?_layout ((name, v) :: fields) depth (depth + 1) rest fuel
      (List.cons_ne_nil _ _) (by simp [layout_record_cons] at hf; omega)
    obtain ⟨cs, hfields⟩ := fieldsText_begins (depth + 1) (name, v) fields
    rw [hfields] at hread
    simpa [layout_record_cons, hfields, meaning] using
      readValue?_record (depth + 1) hread

theorem readValues?_layout : (values : List JsonValue) → (depth inner : Nat) → (rest : List Char) →
    (fuel : Nat) → values ≠ [] → 2 * (itemsText inner values).length + 1 ≤ fuel →
      readValues? fuel (itemsText inner values ++ newline depth ++ ']' :: rest) =
        some (meanings values, rest)
  | [], _, _, _, _, h, _ => absurd rfl h
  | _, _, _, _, 0, _, hf => absurd hf (Nat.not_succ_le_zero _)
  | [v], depth, inner, rest, fuel + 1, _, hf => by
    have hread := readValue?_layout v inner (newline depth ++ ']' :: rest) fuel
      (by simp [itemsText, layoutValues] at hf; omega)
    simpa [itemsText, layoutValues, meanings] using readValues?_last hread
  | v :: w :: ws, depth, inner, rest, fuel + 1, _, hf => by
    have hread := readValue?_layout v inner
      (',' :: (newline inner ++ (itemsText inner (w :: ws) ++ newline depth ++ ']' :: rest))) fuel
      (by simp [itemsText] at hf; omega)
    have hmore := readValues?_layout (w :: ws) depth inner rest fuel (List.cons_ne_nil w ws)
      (by
        rw [itemsText, layoutValues_cons] at hf
        simp at hf
        omega)
    rw [← readValues?_newline fuel inner] at hmore
    have hvalues := readValues?_more hread hmore
    rw [itemsText, layoutValues_cons, meanings]
    simpa using hvalues

theorem readFields?_layout : (fields : List (String × JsonValue)) → (depth inner : Nat) →
    (rest : List Char) → (fuel : Nat) → fields ≠ [] →
      2 * (fieldsText inner fields).length + 1 ≤ fuel →
        readFields? fuel (fieldsText inner fields ++ newline depth ++ '\x7d' :: rest) =
          some (fieldMeanings fields, rest)
  | [], _, _, _, _, h, _ => absurd rfl h
  | _, _, _, _, 0, _, hf => absurd hf (Nat.not_succ_le_zero _)
  | [(name, v)], depth, inner, rest, fuel + 1, _, hf => by
    have hread := readValue?_layout v inner (newline depth ++ '\x7d' :: rest) fuel
      (by simp [fieldsText, layoutFields] at hf; omega)
    simpa [fieldsText, layoutFields, fieldMeanings] using readFields?_last name hread
  | (name, v) :: field :: fields, depth, inner, rest, fuel + 1, _, hf => by
    have hread := readValue?_layout v inner
      (',' :: (newline inner ++ (fieldsText inner (field :: fields) ++ newline depth ++
        '\x7d' :: rest))) fuel
      (by simp [fieldsText] at hf; omega)
    have hmore := readFields?_layout (field :: fields) depth inner rest fuel
      (List.cons_ne_nil field fields)
      (by
        rw [fieldsText, layoutFields_cons] at hf
        simp at hf
        omega)
    rw [← readFields?_newline fuel inner] at hmore
    have hfields := readFields?_more name hread hmore
    rw [fieldsText, layoutFields_cons, fieldMeanings]
    simpa using hfields

end

/-- The text of a value says that value. -/
theorem read?_pretty (v : JsonValue) : read? v.pretty = some v.meaning := by
  have hread := readValue?_layout v 0 [] _ (Nat.le_refl _)
  have hrest : (skipSpace []).isEmpty = true := rfl
  rw [List.append_nil] at hread
  rw [read?, pretty, String.toList_ofList, String.length_ofList, hread]
  simp only [bind, Option.bind_some, hrest, if_true]

example : read? " [ -1.5e+3,\t\"\\u00e9\\ud83d\\uDE00\\/\" ,null ] " =
    some (.list [.number "-1.5e+3", .text "é😀/", .null]) := by
  cbv

end Json

end SourceBundle
