import Mathlib.Tactic.Common

/-!
# Runs of a deterministic machine

A machine reads one event at a time and may refuse it. A run visits a state when
some initial part of its events leads there. A property of the visited states is
an invariant when each step keeps it; where a step keeps it only under a
condition, a run visits good states only exactly when all its steps meet that
condition.
-/

namespace Machine

variable {σ ε : Type*} (step : ε → σ → Option σ)

/-- The run of `events` from a state passes through a state. -/
inductive Visits : σ → List ε → σ → Prop
  | here {s : σ} {events : List ε} : Visits s events s
  | later {s s' t : σ} {e : ε} {events : List ε} (hstep : step e s = some s')
      (h : Visits s' events t) : Visits s (e :: events) t

/-- Each step of the run meets `P`, as far as the run gets. -/
def Throughout (P : ε → σ → Prop) : List ε → σ → Prop
  | [], _ => True
  | e :: events, s => ∀ s', step e s = some s' → P e s ∧ Throughout P events s'

/-- The state at the end of the run. -/
def finish : List ε → σ → Option σ
  | [], s => some s
  | e :: events, s => (step e s).bind (finish events)

variable {step} {s s' t : σ} {events : List ε}

theorem throughout_cons_of_none {P : ε → σ → Prop} {e : ε} (h : step e s = none) :
    Throughout step P (e :: events) s := by
  intro s' hs'
  rw [h] at hs'
  cases hs'

theorem throughout_cons_of_some {P : ε → σ → Prop} {e : ε} (h : step e s = some s') :
    Throughout step P (e :: events) s ↔ P e s ∧ Throughout step P events s' := by
  constructor
  · exact fun hall => hall s' h
  · intro hboth s'' hs''
    obtain rfl := Option.some.inj (h.symm.trans hs'')
    exact hboth

/-- A condition that can be checked at each step can be checked along a run. -/
instance Throughout.decidable {P : ε → σ → Prop} [∀ e s, Decidable (P e s)] :
    (events : List ε) → (s : σ) → Decidable (Throughout step P events s)
  | [], _ => .isTrue trivial
  | e :: events, s =>
      match h : step e s with
      | none => .isTrue (throughout_cons_of_none h)
      | some s' =>
          have : Decidable (Throughout step P events s') := Throughout.decidable events s'
          decidable_of_iff _ (throughout_cons_of_some h).symm

theorem visits_of_finish (h : finish step events s = some t) : Visits step s events t := by
  induction events generalizing s with
  | nil =>
      obtain rfl := Option.some.inj h
      exact .here
  | cons e events ih =>
      obtain ⟨s', hstep, h⟩ := Option.bind_eq_some_iff.mp h
      exact .later hstep (ih h)

theorem exists_finish {p : σ → Prop} [DecidablePred p]
    (h : (finish step events s).any (fun t => decide (p t)) = true) :
    ∃ t, finish step events s = some t ∧ p t := by
  obtain ⟨t, ht, hp⟩ := (Option.any_eq_true _ _).mp h
  exact ⟨t, ht, of_decide_eq_true hp⟩

/-- A decided property of the last state, as a statement about the run. -/
theorem exists_visits {p : σ → Prop} [DecidablePred p]
    (h : (finish step events s).any (fun t => decide (p t)) = true) :
    ∃ t, Visits step s events t ∧ p t := by
  obtain ⟨t, ht, hp⟩ := exists_finish h
  exact ⟨t, visits_of_finish ht, hp⟩

theorem Visits.invariant {P : σ → Prop}
    (hstep : ∀ {e s s'}, P s → step e s = some s' → P s')
    (h : Visits step s events t) (hs : P s) : P t := by
  induction h with
  | here => exact hs
  | later hs' _ ih => exact ih (hstep hs hs')

/-- Two conditions that agree at every step that is taken. -/
theorem throughout_congr {P Q : ε → σ → Prop}
    (h : ∀ e s s', step e s = some s' → (P e s ↔ Q e s)) (events : List ε) (s : σ) :
    Throughout step P events s ↔ Throughout step Q events s := by
  induction events generalizing s with
  | nil => exact Iff.rfl
  | cons e events ih =>
      refine forall_congr' fun s' => ?_
      refine imp_congr_right fun hs' => ?_
      exact and_congr (h e s s' hs') (ih s')

/-- A condition that all events of a run meet in every state. -/
theorem throughout_of_forall {C : ε → σ → Prop} (h : ∀ e ∈ events, ∀ s, C e s) (s : σ) :
    Throughout step C events s := by
  induction events generalizing s with
  | nil => trivial
  | cons e events ih =>
      intro s' _
      exact ⟨h e List.mem_cons_self s, ih (fun e' he' => h e' (List.mem_cons_of_mem e he')) s'⟩

theorem Throughout.and {P Q : ε → σ → Prop} (hp : Throughout step P events s)
    (hq : Throughout step Q events s) : Throughout step (fun e s => P e s ∧ Q e s) events s := by
  induction events generalizing s with
  | nil => trivial
  | cons e events ih =>
      intro s' hs'
      obtain ⟨hpe, hp⟩ := hp s' hs'
      obtain ⟨hqe, hq⟩ := hq s' hs'
      exact ⟨⟨hpe, hqe⟩, ih hp hq⟩

/-- A condition that an invariant gives at every step, along a run whose events keep it. -/
theorem throughout_of_invariant {P : σ → Prop} {C : ε → σ → Prop}
    (hstep : ∀ e ∈ events, ∀ s s', P s → step e s = some s' → C e s ∧ P s') (hs : P s) :
    Throughout step C events s := by
  induction events generalizing s with
  | nil => trivial
  | cons e events ih =>
      intro s' hs'
      obtain ⟨hc, hp⟩ := hstep e List.mem_cons_self s s' hs hs'
      exact ⟨hc, ih (fun e' he' => hstep e' (List.mem_cons_of_mem e he')) hp⟩

/-- An invariant that the steps keep under a condition, along a run that meets it. -/
theorem Visits.invariant_of_throughout {P : σ → Prop} {C : ε → σ → Prop}
    (hstep : ∀ {e s s'}, P s → C e s → step e s = some s' → P s')
    (h : Visits step s events t) (hcond : Throughout step C events s) (hs : P s) : P t := by
  induction h with
  | here => exact hs
  | later hs' _ ih =>
      obtain ⟨hc, hrest⟩ := hcond _ hs'
      exact ih hrest (hstep hs hc hs')

/-- A condition that each step must have met, since the state after it is good. -/
theorem throughout_of_visits {P Q : σ → Prop} {C : ε → σ → Prop}
    (hstep : ∀ {e s s'}, P s → step e s = some s' → Q s' → C e s ∧ P s') (hs : P s)
    (h : ∀ t, Visits step s events t → Q t) : Throughout step C events s := by
  induction events generalizing s with
  | nil => trivial
  | cons e events ih =>
      intro s' hs'
      obtain ⟨hc, hp⟩ := hstep hs hs' (h _ (.later hs' .here))
      exact ⟨hc, ih hp fun t hv => h t (.later hs' hv)⟩

/-- `A` is kept by every step, `G` exactly by the steps that meet `C`. -/
theorem visits_iff {G A : σ → Prop} {C : ε → σ → Prop}
    (hstep : ∀ {e s s'}, G s → A s → step e s = some s' → (G s' ↔ C e s) ∧ A s')
    (events : List ε) (hgood : G s) (haux : A s) :
    (∀ t, Visits step s events t → G t) ↔ Throughout step C events s := by
  induction events generalizing s with
  | nil =>
      refine iff_of_true ?_ trivial
      intro t h
      cases h
      exact hgood
  | cons e events ih =>
      constructor
      · intro h s' hs'
        obtain ⟨hiff, haux'⟩ := hstep hgood haux hs'
        have hgood' : G s' := h _ (.later hs' .here)
        exact ⟨hiff.mp hgood', (ih hgood' haux').mp fun t hv => h t (.later hs' hv)⟩
      · intro hcov t hv
        cases hv with
        | here => exact hgood
        | later hs' hv =>
            obtain ⟨hc, hrest⟩ := hcov _ hs'
            obtain ⟨hiff, haux'⟩ := hstep hgood haux hs'
            exact (ih (hiff.mpr hc) haux').mpr hrest t hv

/-- A measure that one event lowers until `Q` holds: enough of these events lead to `Q`. -/
theorem finish_of_measure {P Q : σ → Prop} (m : σ → ℕ) (e : ε)
    (hstep : ∀ s, P s → ¬Q s → ∃ s', step e s = some s' ∧ P s' ∧ m s' < m s) (hs : P s) :
    ∃ n t, finish step (List.replicate n e) s = some t ∧ P t ∧ Q t := by
  induction hm : m s using Nat.strongRecOn generalizing s with
  | ind k ih =>
      by_cases hq : Q s
      · exact ⟨0, s, rfl, hs, hq⟩
      · obtain ⟨s', hs', hp, hlt⟩ := hstep s hs hq
        obtain ⟨n, t, hfin, ht⟩ := ih (m s') (hm ▸ hlt) hp rfl
        exact ⟨n + 1, t, by rw [List.replicate_succ, finish, hs']; exact hfin, ht⟩

end Machine
