import Mathlib.Data.List.Forall2

/-!
# Steps that can fail

A computation of several steps succeeds exactly when each of its steps does.
-/

namespace SourceBundle

variable {ε ε' α β : Type}

theorem bind_eq_ok_iff {x : Except ε α} {f : α → Except ε β} {b : β} :
    (x >>= f) = .ok b ↔ ∃ a, x = .ok a ∧ f a = .ok b := by
  cases x <;> simp [bind, Except.bind]

theorem mapError_eq_ok_iff {f : ε → ε'} {x : Except ε α} {a : α} :
    x.mapError f = .ok a ↔ x = .ok a := by
  cases x <;> simp [Except.mapError]

theorem pure_eq_ok_iff {a b : α} : (pure a : Except ε α) = .ok b ↔ a = b := by
  simp [pure, Except.pure]

/-- A pass over a list succeeds where every step does. -/
theorem mapM_eq_ok_iff {f : α → Except ε β} {l : List α} {results : List β} :
    l.mapM f = .ok results ↔ List.Forall₂ (fun a b => f a = .ok b) l results := by
  induction l generalizing results with
  | nil => rw [List.mapM_nil, pure_eq_ok_iff, List.forall₂_nil_left_iff, eq_comm]
  | cons a l ih =>
    simp only [List.mapM_cons, bind_eq_ok_iff, pure_eq_ok_iff, ih, List.forall₂_cons_left_iff]
    constructor
    · rintro ⟨b, hb, rest, hrest, rfl⟩
      exact ⟨b, rest, hb, hrest, rfl⟩
    · rintro ⟨b, rest, hb, hrest, rfl⟩
      exact ⟨b, hb, rest, hrest, rfl⟩

theorem exists_mapM_ok_iff {f : α → Except ε β} {l : List α} :
    (∃ results, l.mapM f = .ok results) ↔ ∀ a ∈ l, ∃ b, f a = .ok b := by
  simp only [mapM_eq_ok_iff]
  constructor
  · rintro ⟨results, hresults⟩ a ha
    induction hresults with
    | nil => simp at ha
    | cons hstep _ ih =>
      rcases List.mem_cons.mp ha with rfl | ha
      · exact ⟨_, hstep⟩
      · exact ih ha
  · intro h
    induction l with
    | nil => exact ⟨[], .nil⟩
    | cons a l ih =>
      obtain ⟨⟨b, hb⟩, hrest⟩ := List.forall_mem_cons.mp h
      obtain ⟨results, hresults⟩ := ih hrest
      exact ⟨b :: results, .cons hb hresults⟩

theorem exists_ok_iff {x : Except ε α} : (∃ a, x = .ok a) ↔ ¬∃ e, x = .error e := by
  cases x <;> simp

theorem mapM_eq_ok_map_iff {f : α → Except ε β} {g : α → β} {P : α → Prop} {l : List α}
    {results : List β} (h : ∀ a ∈ l, ∀ b, f a = .ok b ↔ b = g a ∧ P a) :
    l.mapM f = .ok results ↔ results = l.map g ∧ ∀ a ∈ l, P a := by
  rw [mapM_eq_ok_iff]
  induction l generalizing results with
  | nil => simp
  | cons a l ih =>
    obtain ⟨hfirst, hrest⟩ := List.forall_mem_cons.mp h
    simp only [List.forall₂_cons_left_iff, hfirst, ih hrest, List.map_cons, List.forall_mem_cons]
    constructor
    · rintro ⟨b, rest, ⟨rfl, ha⟩, ⟨rfl, hl⟩, rfl⟩
      exact ⟨rfl, ha, hl⟩
    · rintro ⟨rfl, ha, hl⟩
      exact ⟨_, _, ⟨rfl, ha⟩, ⟨rfl, hl⟩, rfl⟩

theorem mapM_ok_imp {f g : α → Except ε β} {l : List α} {results : List β}
    (h : l.mapM f = .ok results) (himp : ∀ a ∈ l, ∀ b, f a = .ok b → g a = .ok b) :
    l.mapM g = .ok results := by
  rw [mapM_eq_ok_iff] at h ⊢
  induction h with
  | nil => exact .nil
  | cons hstep _ ih =>
    obtain ⟨hfirst, hrest⟩ := List.forall_mem_cons.mp himp
    exact .cons (hfirst _ hstep) (ih hrest)

theorem exists_of_forall₂ {R : α → β → Prop} {l : List α} {l' : List β}
    (h : List.Forall₂ R l l') {b : β} (hb : b ∈ l') : ∃ a, R a b := by
  induction h with
  | nil => simp at hb
  | cons hab _ ih =>
    rcases List.mem_cons.mp hb with rfl | hb
    · exact ⟨_, hab⟩
    · exact ih hb

end SourceBundle
