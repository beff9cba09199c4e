import SourceBundle.Proofs.GoBrackets

/-!
# How deep readings go

A form leads to few other forms before something of the source is taken, so a bound on the depth of a
reading that grows with the text ahead is never met: with enough fuel the ends of a form, and the
weights of its readings, do not depend on the fuel.
-/

namespace SourceBundle.Go

namespace Form

def consumes : Form → Bool
  | .empty | .many _ | .notNext _ => false
  | .seq f g => f.consumes || g.consumes
  | .alt f g => f.consumes && g.consumes
  | .sameLine f | .weighted _ f => f.consumes
  | .sign s _ => s.toList != []
  | _ => true

end Form

def Phrase.depth : Phrase → Nat
  | .statements _ => 100
  | .statement _ => 90
  | .expression _ => 60
  | .unary _ => 50
  | .primary _ | .block => 45
  | .operand _ | .suffix _ => 40
  | .type _ _ => 25
  | .typeArguments _ | .parameters | .literalValue | .ifStatement => 10

/-- The form leads no deeper than that before something is taken; each character that is taken adds 64
to the depth that is left. -/
def Form.shallow : Nat → Form → Bool
  | 0, _ => false
  | depth + 1, f =>
    match f with
    | .phrase p => p.depth ≤ depth
    | .seq f g => f.shallow depth && g.shallow (if f.consumes then depth + 64 else depth)
    | .alt f g => f.shallow depth && g.shallow depth
    | .many f | .sameLine f | .notNext f | .weighted _ f => f.shallow depth
    | _ => true
termination_by structural _ f => f

set_option maxRecDepth 10000 in
theorem Phrase.consumes_form (p : Phrase) : p.form.consumes = true := by
  cases p with
  | operand a =>
    rcases a with ⟨line, header, ending, lead, guarded⟩
    cases line <;> cases header <;> cases guarded <;> rfl
  | suffix a =>
    rcases a with ⟨line, header, ending, lead, guarded⟩
    cases line <;> cases guarded <;> rfl
  | type closing beside => cases closing <;> cases beside <;> rfl
  | _ => rfl

set_option maxRecDepth 10000 in
theorem Phrase.shallow_form (p : Phrase) : p.form.shallow p.depth = true := by
  cases p with
  | operand a =>
    rcases a with ⟨line, header, ending, lead, guarded⟩
    cases line <;> cases header <;> cases guarded <;> rfl
  | suffix a =>
    rcases a with ⟨line, header, ending, lead, guarded⟩
    cases line <;> cases guarded <;> rfl
  | expression a =>
    rcases a with ⟨line, header, ending, lead, guarded⟩
    cases line <;> rfl
  | type closing beside => cases closing <;> cases beside <;> rfl
  | _ => rfl

/-! ## What is taken -/

namespace Cursor

variable {c d : Cursor}

theorem left_pos_of_rest_ne_nil (hc : c.Counted) (h : c.rest ≠ []) : 0 < c.left := by
  rw [hc]
  exact List.length_pos_iff.mpr h

theorem advance_left_lt (hc : c.Counted) (hrest : c.rest ≠ []) {count : Nat} (hcount : 0 < count) :
    (c.advance count).left < c.left := by
  rw [advance_left hc]
  exact Nat.sub_lt (left_pos_of_rest_ne_nil hc hrest) hcount

theorem left_lt_of_passSign {sign : String} (hc : c.Counted) (hsign : sign.toList ≠ [])
    (h : c.passSign sign = some d) : d.left < c.left := by
  rw [passSign] at h
  split at h
  · next hprefix =>
    cases h
    refine advance_left_lt hc (fun hrest => ?_) ?_
    · rw [hrest, List.isPrefixOf_iff_prefix, List.prefix_nil] at hprefix
      exact hsign hprefix
    · rw [← String.length_toList]
      exact List.length_pos_iff.mpr hsign
  · cases h

end Cursor

namespace Form

variable {fuel fuel' depth : Nat} {f g : Form} {c d stop : Cursor}

theorem left_lt_of_mem_tokenEnds (hc : c.Counted) (hf : f.consumes = true)
    (h : d ∈ f.tokenEnds c) : d.left < c.left := by
  have word (hword : wordLength c.rest ≠ 0) : (c.advance (wordLength c.rest)).left < c.left := by
    refine Cursor.advance_left_lt hc (fun hrest => hword ?_) (Nat.pos_of_ne_zero hword)
    rw [hrest, wordLength]
  have length {count : Option Nat} (hcount : ∀ n, count = some n → 0 < n ∧ c.rest ≠ [])
      (hd : d ∈ c.passLength count) : d.left < c.left := by
    cases count with
    | none => cases hd
    | some n =>
      obtain ⟨hpos, hrest⟩ := hcount n rfl
      exact List.mem_singleton.mp hd ▸ Cursor.advance_left_lt hc hrest hpos
  unfold tokenEnds at h
  split at h
  · dsimp only at h
    split at h
    · next hword =>
      simp only [Bool.and_eq_true, bne_iff_ne] at hword
      exact List.mem_singleton.mp h ▸ word hword.1
    · cases h
  · dsimp only at h
    split at h
    · cases h
    · next hword =>
      simp only [Bool.or_eq_true, beq_iff_eq, not_or] at hword
      exact List.mem_singleton.mp h ▸ word hword.1
  · split at h
    · cases h
    · exact Cursor.left_lt_of_passSign hc (by simpa [consumes] using hf) (Option.mem_toList.mp h)
  · split at h
    · split at h
      · next s hs hoperator =>
        have hall : ∀ s ∈ binaryOperators, s.toList ≠ [] := by decide
        exact Cursor.left_lt_of_passSign hc (hall s (by simpa using hoperator))
          (Option.mem_toList.mp h)
      · cases h
    · cases h
  · refine length (fun n hn => ⟨(numberLength?_bounds hn).1, fun hrest => ?_⟩) h
    rw [hrest] at hn
    cases hn
  · refine length (fun n hn => ⟨(runeLength?_bounds hn).1, fun hrest => ?_⟩) h
    rw [hrest] at hn
    cases hn
  · exact Cursor.left_lt_of_passString hc (Option.mem_toList.mp h)
  · cases h

theorem left_lt_of_mem_terminatorEnds (hc : c.Counted) (h : d ∈ terminatorEnds c) :
    d.left < c.left := by
  have hskip := Cursor.reaches_skipInLine c
  obtain ⟨hends, rfl⟩ := endsItem_of_mem_terminatorEnds h
  have hlt : c.skipInLine.next.left < c.skipInLine.left :=
    Cursor.advance_left_lt (hskip.counted hc) (rest_ne_nil_of_endsItem hends) Nat.one_pos
  exact Nat.lt_of_lt_of_le hlt (hskip.left_le hc)

theorem left_lt_of_mem_ends (hc : c.Counted) (hf : f.consumes = true) (h : d ∈ f.ends fuel c) :
    d.left < c.left := by
  induction fuel generalizing f c d with
  | zero => cases h
  | succ fuel ih =>
    unfold ends at h
    split at h
    · cases hf
    · exact left_lt_of_mem_terminatorEnds hc h
    · next p => exact ih hc p.consumes_form h
    · next f g =>
      rcases Cursor.mem_foldl_union h with hd | ⟨e, he, hd⟩
      · cases hd
      · have hce := reaches_of_mem_ends he
        have hle := hce.left_le hc
        have hed := (reaches_of_mem_ends hd).left_le (hce.counted hc)
        rcases Bool.or_eq_true_iff.mp hf with hf | hg
        · exact Nat.lt_of_le_of_lt hed (ih hc hf he)
        · exact Nat.lt_of_lt_of_le (ih (hce.counted hc) hg hd) hle
    · next f g =>
      obtain ⟨hf, hg⟩ := Bool.and_eq_true_iff.mp hf
      rcases Cursor.mem_union h with hd | hd
      · exact ih hc hf hd
      · exact ih hc hg hd
    · cases hf
    · next f =>
      have hf : f.consumes = true := hf
      have hskip := Cursor.reaches_skipInLine c
      dsimp only at h
      split at h
      · cases h
      · exact Nat.lt_of_lt_of_le (ih (hskip.counted hc) hf h) (hskip.left_le hc)
    · cases hf
    · next f =>
      have hf : f.consumes = true := hf
      exact ih hc hf h
    · have hskip := Cursor.reaches_skip c
      exact Nat.lt_of_lt_of_le (left_lt_of_mem_tokenEnds (hskip.counted hc) hf h)
        (hskip.left_le hc)

/-! ## Enough fuel -/

theorem spread_congr {P : Cursor → Prop} {step step' : Cursor → List Cursor}
    (hstep : ∀ d, P d → ∀ e ∈ step d, P e) (hsame : ∀ d, P d → step d = step' d) {count : Nat}
    {todo found : List Cursor} (htodo : ∀ d ∈ todo, P d) :
    spread step count todo found = spread step' count todo found := by
  induction count generalizing todo found with
  | zero => cases todo <;> rfl
  | succ count ih =>
    cases todo with
    | nil => rfl
    | cons d todo =>
      have hd := htodo d List.mem_cons_self
      rw [spread, spread, ← hsame d hd]
      refine ih fun e he => ?_
      rcases List.mem_append.mp he with he | he
      · exact htodo e (List.mem_cons_of_mem d he)
      · exact hstep d hd e (List.mem_filter.mp he).1

theorem foldl_congr {α β : Type} {step step' : β → α → β} {as : List α} {b : β}
    (h : ∀ a ∈ as, ∀ b, step b a = step' b a) : as.foldl step b = as.foldl step' b := by
  induction as generalizing b with
  | nil => rfl
  | cons a as ih =>
    rw [List.foldl_cons, List.foldl_cons, h a List.mem_cons_self b]
    exact ih fun a' ha' => h a' (List.mem_cons_of_mem a ha')

theorem enough_behind (hc : c.Counted) (hd : d ∈ f.ends fuel' c)
    (h : 64 * c.left + depth ≤ fuel) :
    64 * d.left + (if f.consumes then depth + 64 else depth) ≤ fuel := by
  split
  · next hf =>
    have := left_lt_of_mem_ends hc hf hd
    omega
  · have := (reaches_of_mem_ends hd).left_le hc
    omega

/-- With enough fuel, more of it leads nowhere else. -/
theorem ends_fuel (hc : c.Counted) (hf : f.shallow depth = true) (h : 64 * c.left + depth ≤ fuel)
    (h' : 64 * c.left + depth ≤ fuel') : f.ends fuel c = f.ends fuel' c := by
  induction fuel generalizing f c depth fuel' with
  | zero =>
    obtain rfl : depth = 0 := by omega
    cases f <;> cases hf
  | succ fuel ih =>
    cases depth with
    | zero => cases f <;> cases hf
    | succ depth =>
      obtain ⟨fuel', rfl⟩ := Nat.exists_eq_add_of_le' (Nat.le_trans (by omega : 1 ≤ _) h')
      have henough : 64 * c.left + depth ≤ fuel := by omega
      have henough' : 64 * c.left + depth ≤ fuel' := by omega
      have hskip := Cursor.reaches_skipInLine c
      have hskipLeft := hskip.left_le hc
      cases f with
      | phrase p =>
        have hdepth : p.depth ≤ depth := of_decide_eq_true hf
        rw [ends, ends]
        exact ih hc p.shallow_form (by omega) (by omega)
      | seq f g =>
        obtain ⟨hf, hg⟩ := Bool.and_eq_true_iff.mp hf
        rw [ends, ends, ← ih hc hf henough henough']
        refine foldl_congr fun d hd found => ?_
        have hreach := reaches_of_mem_ends hd
        rw [ih (hreach.counted hc) hg (enough_behind hc hd henough)
          (enough_behind hc hd henough')]
      | alt f g =>
        obtain ⟨hf, hg⟩ := Bool.and_eq_true_iff.mp hf
        rw [ends, ends, ih hc hf henough henough', ih hc hg henough henough']
      | many f =>
        rw [ends, ends]
        refine spread_congr (P := c.Reaches) (fun d hd e he => hd.trans (reaches_of_mem_ends he))
          (fun d hd => ?_) fun d hd => List.mem_singleton.mp hd ▸ .refl c
        have hle := hd.left_le hc
        exact ih (hd.counted hc) hf (by omega) (by omega)
      | sameLine f =>
        have hf : f.shallow depth = true := hf
        have hsame : f.ends fuel c.skipInLine = f.ends fuel' c.skipInLine :=
          ih (hskip.counted hc) hf (by omega) (by omega)
        rw [ends, ends, hsame]
      | notNext f | weighted _ f =>
        have hf : f.shallow depth = true := hf
        rw [ends, ends, ih hc hf henough henough']
      | _ => rfl

theorem weight?_fuel (hc : c.Counted) (hf : f.shallow depth = true)
    (h : 64 * c.left + depth < fuel) (h' : 64 * c.left + depth < fuel') :
    f.weight? fuel c stop = f.weight? fuel' c stop := by
  induction fuel generalizing f c depth fuel' stop with
  | zero => omega
  | succ fuel ih =>
    obtain ⟨fuel', rfl⟩ := Nat.exists_eq_add_of_le' (Nat.le_trans (by omega : 1 ≤ _) h')
    cases depth with
    | zero => cases f <;> cases hf
    | succ depth =>
      have henough : 64 * c.left + depth < fuel := by omega
      have henough' : 64 * c.left + depth < fuel' := by omega
      have hskip := Cursor.reaches_skipInLine c
      have hskipLeft := hskip.left_le hc
      have hends {f : Form} (hf : f.shallow depth = true) : f.ends fuel c = f.ends fuel' c :=
        ends_fuel hc hf (by omega) (by omega)
      have htoken {f : Form} (hf : f.shallow (depth + 1) = true) : f.ends fuel c = f.ends fuel' c :=
        ends_fuel hc hf (by omega) (by omega)
      cases f with
      | phrase p =>
        have hdepth : p.depth ≤ depth := of_decide_eq_true hf
        rw [weight?, weight?]
        exact ih hc p.shallow_form (by omega) (by omega)
      | seq f g =>
        obtain ⟨hf, hg⟩ := Bool.and_eq_true_iff.mp hf
        rw [weight?, weight?, ← hends hf]
        refine foldl_congr fun d hd best => ?_
        have hreach := reaches_of_mem_ends hd
        have hbehind := enough_behind hc hd (Nat.le_refl (64 * c.left + depth))
        have hrest : g.weight? fuel d stop = g.weight? fuel' d stop :=
          ih (hreach.counted hc) hg (by omega) (by omega)
        rw [ih hc hf henough henough', hrest]
      | alt f g =>
        obtain ⟨hf, hg⟩ := Bool.and_eq_true_iff.mp hf
        rw [weight?, weight?, ih hc hf henough henough', ih hc hg henough henough']
      | many f =>
        have hagain : (Form.many f).shallow (depth + 1) = true := hf
        have hf : f.shallow depth = true := hf
        rw [weight?, weight?, ← hends hf]
        refine foldl_congr fun d hd best => ?_
        have hreach := reaches_of_mem_ends hd
        congr 1
        split
        · have hrest : (Form.many f).weight? fuel d stop = (Form.many f).weight? fuel' d stop :=
            ih (hreach.counted hc) hagain (by omega) (by omega)
          rw [ih hc hf henough henough', hrest]
        · rfl
      | sameLine f =>
        have hf : f.shallow depth = true := hf
        have hsame : f.weight? fuel c.skipInLine stop = f.weight? fuel' c.skipInLine stop :=
          ih (hskip.counted hc) hf (by omega) (by omega)
        rw [weight?, weight?, hsame]
      | weighted n f =>
        have hf : f.shallow depth = true := hf
        rw [weight?, weight?, ih hc hf henough henough']
      | _ => simp only [weight?, htoken hf]

end Form

end SourceBundle.Go
