/-!
# Runs of a step relation

A run keeps every move it made. An invariant holds around each move, and two move
predicates that agree under an invariant hold along the same runs.
-/

namespace Runs

universe u v

variable {σ : Type u} {ε : Type v}

structure Move (σ : Type u) (ε : Type v) where
  before : σ
  event : ε
  after : σ

/-- The moves of a run from `start`, the latest last, and the state it ends in. -/
inductive Run (step : σ → ε → σ → Prop) (start : σ) : List (Move σ ε) → σ → Prop
  | start : Run step start [] start
  | move {moves : List (Move σ ε)} {s s' : σ} {e : ε} (hRun : Run step start moves s)
      (hStep : step s e s') : Run step start (moves ++ [⟨s, e, s'⟩]) s'

variable {step : σ → ε → σ → Prop} {start s : σ} {moves : List (Move σ ε)}

theorem Run.step_of_mem (hRun : Run step start moves s) :
    ∀ m ∈ moves, step m.before m.event m.after := by
  induction hRun with
  | start => nofun
  | move _ hStep ih =>
    intro m hm
    rcases List.mem_append.mp hm with hm | hm
    · exact ih m hm
    · rw [List.mem_singleton.mp hm]
      exact hStep

/-- An invariant that the moves satisfying `allowed` preserve holds around all of them. -/
theorem Run.invariant_of_allowed {I : σ → Prop} (allowed : Move σ ε → Prop)
    (hRun : Run step start moves s) (hAllowed : ∀ m ∈ moves, allowed m) (hStart : I start)
    (hPreserved : ∀ s e s', I s → step s e s' → allowed ⟨s, e, s'⟩ → I s') :
    I s ∧ ∀ m ∈ moves, I m.before := by
  induction hRun with
  | start => exact ⟨hStart, nofun⟩
  | @move moves s s' e _ hStep ih =>
    obtain ⟨hBefore, hMoves⟩ := ih fun m hm => hAllowed m (List.mem_append_left _ hm)
    have hLast := hAllowed _ (List.mem_append_right moves List.mem_cons_self)
    refine ⟨hPreserved s e s' hBefore hStep hLast, fun m hm => ?_⟩
    rcases List.mem_append.mp hm with hm | hm
    · exact hMoves m hm
    · rw [List.mem_singleton.mp hm]
      exact hBefore

/-- Where every other move breaks the law, a run obeys it throughout iff its moves are allowed. -/
theorem Run.law_iff_allowed {I L : σ → Prop} {allowed : Move σ ε → Prop}
    (hRun : Run step start moves s) (hStart : I start)
    (hPreserved : ∀ s e s', I s → step s e s' → allowed ⟨s, e, s'⟩ → I s') (hLaw : ∀ s, I s → L s)
    (hBreaks : ∀ s e s', I s → step s e s' → ¬allowed ⟨s, e, s'⟩ → ¬L s') :
    (L s ∧ ∀ m ∈ moves, L m.before) ↔ ∀ m ∈ moves, allowed m := by
  constructor
  · rintro ⟨hLast, hBefore⟩
    induction hRun with
    | start => nofun
    | @move moves s s' e hRun hStep ih =>
      have hMove : L s := hBefore ⟨s, e, s'⟩ (List.mem_append_right moves List.mem_cons_self)
      have hEarlier := ih hMove fun m hm => hBefore m (List.mem_append_left _ hm)
      have hInv := (hRun.invariant_of_allowed allowed hEarlier hStart hPreserved).1
      intro m hm
      rcases List.mem_append.mp hm with hm | hm
      · exact hEarlier m hm
      · rw [List.mem_singleton.mp hm]
        exact Classical.byContradiction fun hNot => hBreaks s e s' hInv hStep hNot hLast
  · intro hAllowed
    obtain ⟨hInv, hBefore⟩ := hRun.invariant_of_allowed allowed hAllowed hStart hPreserved
    exact ⟨hLaw s hInv, fun m hm => hLaw m.before (hBefore m hm)⟩

theorem Run.invariant {I : σ → Prop} (hRun : Run step start moves s) (hStart : I start)
    (hPreserved : ∀ s e s', I s → step s e s' → I s') : I s ∧ ∀ m ∈ moves, I m.before :=
  hRun.invariant_of_allowed (fun _ => True) (fun _ _ => trivial) hStart
    fun s e s' hI hStep _ => hPreserved s e s' hI hStep

/-- Where two move predicates agree under an invariant, a run keeps one iff it keeps the other. -/
theorem Run.forall_iff {I : σ → Prop} {P Q : Move σ ε → Prop} (hRun : Run step start moves s)
    (hStart : I start) (hPreserved : ∀ s e s', I s → step s e s' → I s')
    (hAgree : ∀ s e s', I s → step s e s' → (P ⟨s, e, s'⟩ ↔ Q ⟨s, e, s'⟩)) :
    (∀ m ∈ moves, P m) ↔ ∀ m ∈ moves, Q m := by
  obtain ⟨_, hBefore⟩ := hRun.invariant hStart hPreserved
  refine forall₂_congr fun m hm => ?_
  exact hAgree m.before m.event m.after (hBefore m hm) (hRun.step_of_mem m hm)

/-! ## Replaying a list of events -/

theorem Run.cons {s₁ : σ} {e : ε} (hStep : step start e s₁) (hRun : Run step s₁ moves s) :
    Run step start (⟨start, e, s₁⟩ :: moves) s := by
  induction hRun with
  | start => exact Run.move Run.start hStep
  | move _ hLast ih => exact Run.move ih hLast

/-- The moves of a list of events and the state they end in; none where one is refused. -/
def replay (apply : σ → ε → Option σ) (s : σ) : List ε → Option (List (Move σ ε) × σ)
  | [] => some ([], s)
  | e :: events =>
    (apply s e).bind fun s' =>
      (replay apply s' events).map fun (moves, last) => (⟨s, e, s'⟩ :: moves, last)

theorem run_of_replay {apply : σ → ε → Option σ} {events : List ε}
    (h : replay apply start events = some (moves, s)) :
    Run (fun s e s' => apply s e = some s') start moves s := by
  induction events generalizing start moves with
  | nil =>
    obtain ⟨rfl, rfl⟩ := Prod.mk.inj (Option.some.inj h)
    exact Run.start
  | cons e events ih =>
    obtain ⟨s₁, hStep, hRest⟩ := Option.bind_eq_some_iff.mp h
    obtain ⟨⟨rest, last⟩, hReplay, hEq⟩ := Option.map_eq_some_iff.mp hRest
    obtain ⟨rfl, rfl⟩ := Prod.mk.inj hEq
    exact Run.cons hStep (ih hReplay)

theorem events_of_replay {apply : σ → ε → Option σ} {events : List ε}
    (h : replay apply start events = some (moves, s)) : moves.map (·.event) = events := by
  induction events generalizing start moves with
  | nil =>
    obtain ⟨rfl, rfl⟩ := Prod.mk.inj (Option.some.inj h)
    rfl
  | cons e events ih =>
    obtain ⟨s₁, hStep, hRest⟩ := Option.bind_eq_some_iff.mp h
    obtain ⟨⟨rest, last⟩, hReplay, hEq⟩ := Option.map_eq_some_iff.mp hRest
    obtain ⟨rfl, rfl⟩ := Prod.mk.inj hEq
    rw [List.map_cons, ih hReplay]

end Runs
