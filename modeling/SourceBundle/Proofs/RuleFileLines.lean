import Mathlib.Data.List.Basic
import SourceBundle.Proofs.IgnorePrecedence
import SourceBundle.Proofs.PathPieces
import SourceBundle.RuleFile

/-!
# Rule files line by line

No byte of a character of several bytes is a line feed, so a line feed in a rule file always ends a
line, whatever stands before it. A file is read line by line: each line gives the rule that it gives
alone, under the number that it has in the file, and a carriage return before a line feed is trimmed
off with the other blanks.
-/

namespace SourceBundle

/-! ## Bytes -/

namespace Utf8

def GoesOnAbove (state : Option Begun) : Prop :=
  ∀ b ∈ state, 0x80 ≤ b.low

theorem goesOnAbove_start (byte : UInt8) : GoesOnAbove (start byte).2 := by
  rw [start]
  cases hlead : Lead.ofByte byte with
  | begins b =>
    have hlow : 0x80 ≤ b.low := by
      unfold Lead.ofByte at hlead
      grind
    simpa [GoesOnAbove] using hlow
  | _ => simp [GoesOnAbove]

theorem goesOnAbove_step (state : Option Begun) (byte : UInt8) :
    GoesOnAbove (step state byte).2 := by
  cases state with
  | none => exact goesOnAbove_start byte
  | some b =>
    rw [step]
    split
    · split <;> simp [GoesOnAbove]
    · exact goesOnAbove_start byte

theorem start_of_plain {byte : UInt8} (h : byte.toNat < 0x80) :
    start byte = ([Char.ofNat byte.toNat], none) := by
  simp [start, Lead.ofByte, h]

theorem decodeFrom_append_plain {state : Option Begun} (hstate : GoesOnAbove state) {byte : UInt8}
    (h : byte.toNat < 0x80) (front back : List UInt8) :
    decodeFrom state (front ++ byte :: back) =
      decodeFrom state front ++ Char.ofNat byte.toNat :: decode back := by
  induction front generalizing state with
  | nil =>
    cases state with
    | none => simp [decodeFrom, step, start_of_plain h, decode]
    | some b =>
      have hlow : 0x80 ≤ b.low := hstate b rfl
      have hout : ¬(b.low ≤ byte.toNat ∧ byte.toNat ≤ b.high) := by omega
      simp [decodeFrom, step, hout, start_of_plain h, decode]
  | cons first front ih =>
    rw [List.cons_append, decodeFrom, ih (goesOnAbove_step state first), decodeFrom,
      List.append_assoc]

theorem decode_append_plain {byte : UInt8} (h : byte.toNat < 0x80) (front back : List UInt8) :
    decode (front ++ byte :: back) = decode front ++ Char.ofNat byte.toNat :: decode back :=
  decodeFrom_append_plain (by simp [GoesOnAbove]) h front back

end Utf8

/-! ## Blanks at the end -/

theorem trimBlank_append_blank {c : Char} (hc : isBlank c = true) (cs : List Char) :
    trimBlank (cs ++ [c]) = trimBlank cs := by
  have htail : ∀ ds, trimEndBlank (ds ++ [c]) = trimEndBlank ds := by
    intro ds
    simp [trimEndBlank, hc]
  rw [trimBlank, List.dropWhile_append, trimBlank]
  split
  next hnil => simp [hc, List.isEmpty_iff.mp hnil]
  next => exact htail _

theorem exists_splitOn_concat {sep c : Char} (hc : c ≠ sep) (cs : List Char) :
    ∃ init last, cs.splitOn sep = init ++ [last] ∧
      (cs ++ [c]).splitOn sep = init ++ [last ++ [c]] := by
  induction cs with
  | nil => exact ⟨[], [], by simp, by simp [List.splitOn_cons_eq_if_modifyHead, hc]⟩
  | cons d cs ih =>
    obtain ⟨init, last, hlast, hlonger⟩ := ih
    rw [List.cons_append, List.splitOn_cons_eq_if_modifyHead, List.splitOn_cons_eq_if_modifyHead,
      hlast, hlonger]
    by_cases hd : (d == sep) = true
    · exact ⟨[] :: init, last, by simp [hd], by simp [hd]⟩
    · cases init with
      | nil => exact ⟨[], d :: last, by simp [hd], by simp [hd]⟩
      | cons first init => exact ⟨(d :: first) :: init, last, by simp [hd], by simp [hd]⟩

/-! ## Lines -/

namespace Rule

def movedDown (count : Nat) (rule : Rule) : Rule :=
  { rule with lineNo := rule.lineNo + count }

theorem compile?_add (line : String) (n count : Nat) :
    compile? line (n + count) = (compile? line n).map (movedDown count) := by
  unfold compile?
  simp only
  split
  · rfl
  · rfl
  · split
    · rfl
    · simp [Function.comp_def, movedDown]

theorem compile?_append_blank {c : Char} (hc : isBlank c = true) (cs : List Char) (n : Nat) :
    compile? (String.ofList (cs ++ [c])) n = compile? (String.ofList cs) n := by
  have htrim : trimBlank (String.ofList (cs ++ [c])).toList = trimBlank (String.ofList cs).toList := by
    simpa using trimBlank_append_blank hc cs
  rw [compile?, compile?, htrim]

end Rule

namespace RuleSet

theorem rulesFrom_append (n : Nat) (lines more : List String) :
    rulesFrom n (lines ++ more) = rulesFrom n lines ++ rulesFrom (n + lines.length) more := by
  induction lines generalizing n with
  | nil => rfl
  | cons line lines ih =>
    have hnext : n + 1 + lines.length = n + (lines.length + 1) := by omega
    rw [List.cons_append, rulesFrom, ih, rulesFrom, List.append_assoc, List.length_cons, hnext]

theorem rulesFrom_add (n count : Nat) (lines : List String) :
    rulesFrom (n + count) lines = (rulesFrom n lines).map (Rule.movedDown count) := by
  induction lines generalizing n with
  | nil => rfl
  | cons line lines ih =>
    have hnext : n + count + 1 = n + 1 + count := by omega
    rw [rulesFrom, rulesFrom, Rule.compile?_add, hnext, ih, List.map_append]
    cases Rule.compile? line n <;> rfl

theorem mem_rulesFrom {n : Nat} {lines : List String} {rule : Rule} :
    rule ∈ rulesFrom n lines ↔
      ∃ i line, lines[i]? = some line ∧ Rule.compile? line (n + i) = some rule := by
  induction lines generalizing n with
  | nil => simp [rulesFrom]
  | cons line lines ih =>
    rw [rulesFrom, List.mem_append, Option.mem_toList, ih]
    constructor
    · rintro (hfirst | ⟨i, other, hother, hrule⟩)
      · exact ⟨0, line, rfl, hfirst⟩
      · exact ⟨i + 1, other, hother, by rwa [Nat.add_right_comm] at hrule⟩
    · rintro ⟨i, other, hother, hrule⟩
      cases i with
      | zero =>
        obtain rfl := Option.some.inj hother
        exact .inl hrule
      | succ i => exact .inr ⟨i, other, hother, by rwa [Nat.add_right_comm]⟩

theorem le_lineNo {n : Nat} {lines : List String} {rule : Rule} (h : rule ∈ rulesFrom n lines) :
    n ≤ rule.lineNo := by
  obtain ⟨i, line, _, hrule⟩ := mem_rulesFrom.mp h
  rw [(Rule.compile?_eq_some hrule).1]
  omega

theorem pairwise_lineNo (n : Nat) (lines : List String) :
    (rulesFrom n lines).Pairwise fun a b => a.lineNo < b.lineNo := by
  induction lines generalizing n with
  | nil => exact .nil
  | cons line lines ih =>
    rw [rulesFrom]
    cases hline : Rule.compile? line n with
    | none => simpa using ih (n + 1)
    | some rule =>
      refine List.pairwise_cons.mpr ⟨fun later hlater => ?_, ih (n + 1)⟩
      rw [(Rule.compile?_eq_some hline).1]
      exact le_lineNo hlater

/-! ## Files -/

theorem linesOfBytes_eq (bytes : List UInt8) :
    linesOfBytes bytes = ((Utf8.decode bytes).splitOn '\n').map String.ofList := by
  rw [linesOfBytes, splitAtEach_eq]

def lineFeed : UInt8 := 0x0A

def carriageReturn : UInt8 := 0x0D

theorem linesOfBytes_append (front back : List UInt8) :
    linesOfBytes (front ++ lineFeed :: back) = linesOfBytes front ++ linesOfBytes back := by
  have hdecode : Utf8.decode (front ++ lineFeed :: back) =
      Utf8.decode front ++ '\n' :: Utf8.decode back :=
    Utf8.decode_append_plain (by decide) front back
  simp only [linesOfBytes_eq, hdecode, List.splitOn_append_cons_self, List.map_append]

theorem ofBytes_eq_compile (bytes : List UInt8) (further : List String) :
    ofBytes bytes further = compile (linesOfBytes bytes ++ further) := by
  rw [ofBytes, compile, rulesFrom_append, Nat.add_comm 1]

theorem exists_last_line (bytes : List UInt8) :
    ∃ init last longer, linesOfBytes bytes = init ++ [last] ∧
      linesOfBytes (bytes ++ [carriageReturn]) = init ++ [longer] ∧
      ∀ n, Rule.compile? longer n = Rule.compile? last n := by
  have hdecode : Utf8.decode (bytes ++ [carriageReturn]) = Utf8.decode bytes ++ ['\r'] :=
    Utf8.decode_append_plain (by decide) bytes []
  have hreturn : '\r' ≠ '\n' := by decide
  obtain ⟨init, last, hlast, hlonger⟩ := exists_splitOn_concat hreturn (Utf8.decode bytes)
  refine ⟨init.map String.ofList, String.ofList last, String.ofList (last ++ ['\r']), ?_, ?_, ?_⟩
  · simp [linesOfBytes_eq, hlast]
  · simp [linesOfBytes_eq, hdecode, hlonger]
  · exact Rule.compile?_append_blank (by decide) last

/-- The rules of a file cut at a line feed: those of the lines before it, and behind them those of the
lines after it under numbers that go on. -/
theorem ofBytes_append (front back : List UInt8) (further : List String) :
    (ofBytes (front ++ lineFeed :: back) further).rules =
      (ofBytes front []).rules ++
        (ofBytes back further).rules.map (Rule.movedDown (linesOfBytes front).length) := by
  simp only [ofBytes_eq_compile, compile, linesOfBytes_append, List.append_assoc, List.append_nil]
  rw [rulesFrom_append, rulesFrom_add]

theorem ofBytes_carriageReturn (front back : List UInt8) (further : List String) :
    ofBytes (front ++ carriageReturn :: lineFeed :: back) further =
      ofBytes (front ++ lineFeed :: back) further := by
  obtain ⟨init, last, longer, hlast, hlonger, hrule⟩ := exists_last_line front
  have hcut : front ++ carriageReturn :: lineFeed :: back =
      (front ++ [carriageReturn]) ++ lineFeed :: back := by simp
  rw [ofBytes_eq_compile, ofBytes_eq_compile, hcut, linesOfBytes_append, linesOfBytes_append, hlast,
    hlonger]
  simp only [compile, rulesFrom_append, rulesFrom, hrule, List.length_append, List.length_cons]

theorem ofFile_of_read {fs : FileSystem} {path : String} {bytes : List UInt8}
    (h : fs.read path = .ok bytes) (further : List String) :
    ofFile fs path further = .ok (ofBytes bytes further) := by
  rw [ofFile, h]

/-- A file is compiled as the list of its lines with the further lines behind them. Each rule stands
under the number of its line among all lines, also those that give no rule, so the numbers rise.
Where a line feed cuts the file in two, its rules are those of the first part and behind them those of
the second, which only go on with the numbers; and a carriage return before the line feed changes
nothing. -/
theorem ofFile_by_lines {fs : FileSystem} {path : String} {bytes : List UInt8}
    (h : fs.read path = .ok bytes) (further : List String) :
    ∃ lines set, lines = ((Utf8.decode bytes).splitOn '\n').map String.ofList ++ further ∧
      ofFile fs path further = .ok set ∧ set = compile lines ∧
      set.rules.Pairwise (fun a b => a.lineNo < b.lineNo) ∧
      (∀ rule, rule ∈ set.rules ↔ ∃ i line, lines[i]? = some line ∧ rule.lineNo = i + 1 ∧
        Rule.compile? line (i + 1) = some rule) ∧
      ∀ front back, bytes = front ++ lineFeed :: back →
        set.rules = (ofBytes front []).rules ++
          (ofBytes back further).rules.map (Rule.movedDown (linesOfBytes front).length) ∧
        ofBytes (front ++ carriageReturn :: lineFeed :: back) further = set := by
  refine ⟨_, _, rfl, ofFile_of_read h further, ?_, ?_, ?_, ?_⟩
  · rw [ofBytes_eq_compile, linesOfBytes_eq]
  · rw [ofBytes_eq_compile]
    exact pairwise_lineNo 1 _
  · intro rule
    rw [ofBytes_eq_compile, linesOfBytes_eq, compile, mem_rulesFrom]
    refine exists_congr fun i => exists_congr fun line => and_congr_right fun _ => ?_
    rw [Nat.add_comm 1]
    exact (and_iff_right_of_imp fun hrule => (Rule.compile?_eq_some hrule).1).symm
  · intro front back hbytes
    subst hbytes
    exact ⟨ofBytes_append front back further, ofBytes_carriageReturn front back further⟩

def brokenLineDisk : FileSystem where
  root := .directory [("rules", .file ([97, 0xE2, 0x82] ++ lineFeed :: [98, lineFeed]))]

theorem ofFile_by_lines_broken :
    brokenLineDisk.read "/rules" = .ok ([97, 0xE2, 0x82] ++ lineFeed :: [98, lineFeed]) ∧
      ∃ set, ofFile brokenLineDisk "/rules" ["!c"] = .ok set ∧
        set.rules = (ofBytes [97, 0xE2, 0x82] []).rules ++
          (ofBytes [98, lineFeed] ["!c"]).rules.map (Rule.movedDown 1) ∧
        set.rules.map (·.lineNo) = [1, 2, 4] ∧ set.rules.map (·.text) = ["a\uFFFD", "b", "!c"] := by
  have hread : brokenLineDisk.read "/rules" =
      .ok ([97, 0xE2, 0x82] ++ lineFeed :: [98, lineFeed]) := by decide +kernel
  obtain ⟨lines, set, _, hset, _, _, _, hparts⟩ := ofFile_by_lines hread ["!c"]
  have hrules : set.rules = (ofBytes [97, 0xE2, 0x82] []).rules ++
      (ofBytes [98, lineFeed] ["!c"]).rules.map (Rule.movedDown 1) := (hparts _ _ rfl).1
  refine ⟨hread, set, hset, hrules, ?_, ?_⟩
  · rw [hrules]
    decide +kernel
  · rw [hrules]
    decide +kernel

end RuleSet

end SourceBundle
