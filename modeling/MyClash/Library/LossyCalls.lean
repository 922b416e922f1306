import MyClash.Library.Run
import Mathlib.Logic.Relation
import Mathlib.Data.List.Pairwise

/-!
# Programs whose calls may be lost

Programs share services that answer their calls. A call lands when its service carries it
out; its program is told the answer later, or a failure at any time. A call whose program
was told a failure before it landed is stray, and may land at any later time or never.

A discipline says what each party may change. Where every program keeps to it whatever the
others do, it describes every step of every run, however the programs interleave.
-/

namespace LossyCalls

open Runs Relation

/-- A program: it ends, looks at its clock, or waits for what a call is told. -/
inductive Prog (κ τ : Type) (ans : κ → Type) (α : Type) : Type
  | done (a : α)
  | look (next : τ → Prog κ τ ans α)
  | call (c : κ) (next : Except String (ans c) → Prog κ τ ans α)

namespace Prog

variable {κ τ α β : Type} {ans : κ → Type}

def bind : Prog κ τ ans α → (α → Prog κ τ ans β) → Prog κ τ ans β
  | .done a, f => f a
  | .look next, f => .look fun t => (next t).bind f
  | .call c next, f => .call c fun r => (next r).bind f

instance : Monad (Prog κ τ ans) where
  pure := .done
  bind := bind

/-- The call `c`, and what it is told. -/
def ask (c : κ) : Prog κ τ ans (Except String (ans c)) :=
  .call c .done

def clock : Prog κ τ ans τ :=
  .look .done

@[simp] theorem pure_eq (a : α) : (pure a : Prog κ τ ans α) = .done a := rfl

@[simp] theorem bind_eq (p : Prog κ τ ans α) (f : α → Prog κ τ ans β) : p >>= f = p.bind f := rfl

@[simp] theorem done_bind (a : α) (f : α → Prog κ τ ans β) : (done a).bind f = f a := rfl

theorem bind_done (p : Prog κ τ ans α) : p.bind .done = p := by
  induction p with
  | done a => rfl
  | look next ih => exact congrArg Prog.look (funext ih)
  | call c next ih => exact congrArg (Prog.call c) (funext ih)

@[simp] theorem ask_bind (c : κ) (f : Except String (ans c) → Prog κ τ ans β) :
    (ask c).bind f = .call c f := rfl

@[simp] theorem clock_bind (f : τ → Prog κ τ ans β) : (clock : Prog κ τ ans τ).bind f = .look f :=
  rfl

end Prog

/-- The services, the jobs that run over them and the changes that come from elsewhere. A
service may leave the choice of its answer to a hint. -/
structure System (σ κ τ : Type) (ans : κ → Type) (η ι ε ω : Type) where
  land : (c : κ) → η → σ → Except String (ans c) × σ
  look : σ → τ
  start : ι → σ → Option σ
  program : ι → Prog κ τ ans Unit
  party : ι → Option ω
  elsewhere : ε → σ → Option σ

/-- A job under way: its program, or a landed call its program was not told of yet. -/
inductive Task (κ τ : Type) (ans : κ → Type) : Type
  | running (p : Prog κ τ ans Unit)
  | landed (c : κ) (r : Except String (ans c))
      (next : Except String (ans c) → Prog κ τ ans Unit)

structure Pool (σ κ τ : Type) (ans : κ → Type) (ω : Type) where
  state : σ
  tasks : List (Option ω × Task κ τ ans)
  strays : List κ

inductive Event (η ι ε : Type)
  | start (j : ι)
  | look (i : ℕ)
  | land (i : ℕ) (hint : η)
  | answer (i : ℕ)
  | lose (i : ℕ) (message : String)
  | stray (i : ℕ) (hint : η)
  | elsewhere (x : ε)

variable {σ κ τ η ι ε ω : Type} {ans : κ → Type}

/-- The call that a step lands. -/
def Pool.landing (w : Pool σ κ τ ans ω) : Event η ι ε → Option κ
  | .land i _ =>
    match w.tasks[i]? with
    | some (_, .running (.call c _)) => some c
    | _ => none
  | .stray i _ => w.strays[i]?
  | _ => none

namespace System

variable (S : System σ κ τ ans η ι ε ω)

def step (w : Pool σ κ τ ans ω) : Event η ι ε → Option (Pool σ κ τ ans ω)
  | .start j =>
    (S.start j w.state).map fun s =>
      { w with state := s, tasks := w.tasks ++ [(S.party j, .running (S.program j))] }
  | .look i =>
    match w.tasks[i]? with
    | some (o, .running (.look next)) =>
      some { w with tasks := w.tasks.set i (o, .running (next (S.look w.state))) }
    | _ => none
  | .land i hint =>
    match w.tasks[i]? with
    | some (o, .running (.call c next)) =>
      some { w with
        state := (S.land c hint w.state).2
        tasks := w.tasks.set i (o, .landed c (S.land c hint w.state).1 next) }
    | _ => none
  | .answer i =>
    match w.tasks[i]? with
    | some (o, .landed _ r next) =>
      some { w with tasks := w.tasks.set i (o, .running (next r)) }
    | _ => none
  | .lose i message =>
    match w.tasks[i]? with
    | some (o, .running (.call c next)) =>
      some { w with
        tasks := w.tasks.set i (o, .running (next (.error message)))
        strays := w.strays ++ [c] }
    | some (o, .landed _ _ next) =>
      some { w with tasks := w.tasks.set i (o, .running (next (.error message))) }
    | _ => none
  | .stray i hint =>
    w.strays[i]?.map fun c =>
      { w with state := (S.land c hint w.state).2, strays := w.strays.eraseIdx i }
  | .elsewhere x => (S.elsewhere x w.state).map fun s => { w with state := s }

/-- The call that took effect although its program is told that it failed. -/
def failedInEffect (w : Pool σ κ τ ans ω) : Event η ι ε → Option κ
  | .lose i _ =>
    match w.tasks[i]? with
    | some (_, .landed c (.ok _) _) => some c
    | _ => none
  | .stray i hint => w.strays[i]?.filter fun c => (S.land c hint w.state).1.isOk
  | _ => none

/-- The program run by itself, each call landing and answered at once. -/
def alone {α : Type} (hint : η) : Prog κ τ ans α → σ → α × σ
  | .done a, s => (a, s)
  | .look next, s => alone hint (next (S.look s)) s
  | .call c next, s => alone hint (next (S.land c hint s).1) (S.land c hint s).2

theorem alone_bind {α β : Type} (hint : η) (p : Prog κ τ ans α) (f : α → Prog κ τ ans β) (s : σ) :
    S.alone hint (p.bind f) s =
      S.alone hint (f (S.alone hint p s).1) (S.alone hint p s).2 := by
  induction p generalizing s with
  | done a => rfl
  | look next ih => exact ih (S.look s) s
  | call c next ih => exact ih (S.land c hint s).1 (S.land c hint s).2

abbrev PoolRun (start : Pool σ κ τ ans ω) :=
  Run (fun w e w' => S.step w e = some w') start

end System

/-- What each party may change of the state and its ghost, and what a stray call relies on.
A call lands only when it is timely, and a clean call that failed has no effect. -/
structure Rules (σ κ γ ω : Type) where
  Inv : σ × γ → Prop
  Change : Option ω → σ × γ → σ × γ → Prop
  Begun : ω → σ × γ → Prop
  Stray : κ → σ × γ → Prop
  Clean : κ → Prop
  Timely : κ → σ → Prop

variable {γ : Type}

namespace Rules

variable (R : Rules σ κ γ ω) (S : System σ κ τ ans η ι ε ω)

/-- A change of some party but `o`; calls gone stray are of no party. -/
def Other (o : Option ω) (e e' : σ × γ) : Prop :=
  R.Inv e' ∧ ∃ o', (o' = none ∨ o' ≠ o) ∧ R.Change o' e e'

def Rely (o : Option ω) : σ × γ → σ × γ → Prop :=
  ReflTransGen (R.Other o)

/-- The party `o` keeps to its changes from `e` on, whatever the others do, and ends in `Q`. -/
def Safe {α : Type} (o : Option ω) (Q : α → σ × γ → Prop) : Prog κ τ ans α → σ × γ → Prop
  | .done a, e => Q a e
  | .look next, e => ∀ e', R.Inv e' → R.Rely o e e' → Safe o Q (next (S.look e'.1)) e'
  | .call c next, e => ∀ e', R.Inv e' → R.Rely o e e' →
      (∀ hint, R.Timely c e'.1 → ∃ g,
        R.Change o e' ((S.land c hint e'.1).2, g) ∧
        ∀ e'', R.Inv e'' → R.Rely o ((S.land c hint e'.1).2, g) e'' →
          Safe o Q (next (S.land c hint e'.1).1) e'' ∧
          (¬(R.Clean c ∧ (S.land c hint e'.1).1.isOk) → ∀ message, ∃ g',
            R.Change o e'' (e''.1, g') ∧ Safe o Q (next (.error message)) (e''.1, g'))) ∧
      ∀ message, ∃ g, R.Change o e' (e'.1, g) ∧ (¬R.Clean c → R.Stray c (e'.1, g)) ∧
        Safe o Q (next (.error message)) (e'.1, g)

/-- Every party keeps to the rules, calls gone stray and what comes from elsewhere too. -/
structure Kept : Prop where
  refl (o : Option ω) (e : σ × γ) : R.Change o e e
  inv {o : Option ω} {e e' : σ × γ} (h : R.Inv e) (hChange : R.Change o e e') : R.Inv e'
  begun {o : Option ω} {p : ω} {e e' : σ × γ} (h : R.Begun p e) (hChange : R.Change o e e') :
    R.Begun p e'
  stray {o : Option ω} {c : κ} {e e' : σ × γ} (h : R.Stray c e) (hChange : R.Change o e e') :
    R.Stray c e'
  refused {c : κ} {hint : η} {s : σ} (hClean : R.Clean c)
    (hError : (S.land c hint s).1.isOk = false) : (S.land c hint s).2 = s
  lands {c : κ} {hint : η} {e : σ × γ} (hInv : R.Inv e) (h : R.Stray c e) (hClean : ¬R.Clean c)
    (hTimely : R.Timely c e.1) : ∃ g, R.Change none e ((S.land c hint e.1).2, g)
  elsewhere {x : ε} {e : σ × γ} {s : σ} (hInv : R.Inv e) (h : S.elsewhere x e.1 = some s) :
    ∃ g, R.Change none e (s, g)
  start {j : ι} {e : σ × γ} {s : σ} (hInv : R.Inv e) (h : S.start j e.1 = some s) :
    ∃ g, R.Change none e (s, g) ∧ R.Safe S (S.party j) (fun _ _ => True) (S.program j) (s, g) ∧
      ∀ p, S.party j = some p → ¬R.Begun p e ∧ R.Begun p (s, g)

/-! ## The rules of a program's parts -/

variable {R S} {α β : Type} {o : Option ω} {e e' e'' : σ × γ}

theorem Rely.trans (h : R.Rely o e e') (h' : R.Rely o e' e'') : R.Rely o e e'' :=
  ReflTransGen.trans h h'

/-- What no other party's change undoes holds as long as the party waits. -/
theorem Rely.stable {P : σ × γ → Prop} (h : R.Rely o e e')
    (hStep : ∀ {a b : σ × γ} {o' : Option ω}, (o' = none ∨ o' ≠ o) → R.Inv b → R.Change o' a b →
      P a → P b) (hP : P e) : P e' := by
  induction h with
  | refl => exact hP
  | tail _ hLast ih =>
    obtain ⟨hInv, o', hOther, hChange⟩ := hLast
    exact hStep hOther hInv hChange ih

theorem Safe.bind {Q : α → σ × γ → Prop} {Q' : β → σ × γ → Prop} {p : Prog κ τ ans α}
    {f : α → Prog κ τ ans β} (h : R.Safe S o Q p e)
    (hf : ∀ a e, Q a e → R.Safe S o Q' (f a) e) : R.Safe S o Q' (p.bind f) e := by
  induction p generalizing e with
  | done a => exact hf a e h
  | look next ih => exact fun e' hInv hRely => ih _ (h e' hInv hRely)
  | call c next ih =>
    intro e' hInv hRely
    obtain ⟨hLand, hLose⟩ := h e' hInv hRely
    constructor
    · intro hint hTimely
      obtain ⟨g, hChange, hTold⟩ := hLand hint hTimely
      refine ⟨g, hChange, fun e'' hInv'' hRely'' => ?_⟩
      obtain ⟨hAnswer, hFail⟩ := hTold e'' hInv'' hRely''
      refine ⟨ih _ hAnswer, fun hMay message => ?_⟩
      obtain ⟨g', hChange', hNext⟩ := hFail hMay message
      exact ⟨g', hChange', ih _ hNext⟩
    · intro message
      obtain ⟨g, hChange, hStray, hNext⟩ := hLose message
      exact ⟨g, hChange, hStray, ih _ hNext⟩

theorem Safe.mono {Q Q' : α → σ × γ → Prop} {p : Prog κ τ ans α} (h : R.Safe S o Q p e)
    (hQ : ∀ a e, Q a e → Q' a e) : R.Safe S o Q' p e := by
  have hBind := Safe.bind (f := Prog.done) h hQ
  rwa [Prog.bind_done] at hBind

/-- What no change undoes holds when the program ends. -/
theorem Safe.frame {Q : α → σ × γ → Prop} {C : σ × γ → Prop} {p : Prog κ τ ans α}
    (hC : ∀ {o : Option ω} {a b : σ × γ}, R.Change o a b → C a → C b)
    (h : R.Safe S o Q p e) (hStart : C e) : R.Safe S o (fun a e => Q a e ∧ C e) p e := by
  have hRelied : ∀ {a b : σ × γ}, R.Rely o a b → C a → C b := fun hRely hA =>
    hRely.stable (fun _ _ hChange => hC hChange) hA
  induction p generalizing e with
  | done a => exact ⟨h, hStart⟩
  | look next ih =>
    exact fun e' hInv hRely => ih _ (h e' hInv hRely) (hRelied hRely hStart)
  | call c next ih =>
    intro e' hInv hRely
    obtain ⟨hLand, hLose⟩ := h e' hInv hRely
    have hNow : C e' := hRelied hRely hStart
    constructor
    · intro hint hTimely
      obtain ⟨g, hChange, hTold⟩ := hLand hint hTimely
      refine ⟨g, hChange, fun e'' hInv'' hRely'' => ?_⟩
      obtain ⟨hAnswer, hFail⟩ := hTold e'' hInv'' hRely''
      have hLater : C e'' := hRelied hRely'' (hC hChange hNow)
      refine ⟨ih _ hAnswer hLater, fun hMay message => ?_⟩
      obtain ⟨g', hChange', hNext⟩ := hFail hMay message
      exact ⟨g', hChange', ih _ hNext (hC hChange' hLater)⟩
    · intro message
      obtain ⟨g, hChange, hStray, hNext⟩ := hLose message
      exact ⟨g, hChange, hStray, ih _ hNext (hC hChange hNow)⟩

/-- A call: `F` holds until it lands, and `P` of its answer from then on. -/
theorem Safe.call {Q : α → σ × γ → Prop} {c : κ} {next : Except String (ans c) → Prog κ τ ans α}
    {F : σ × γ → Prop} {P : Except String (ans c) → σ × γ → Prop} (hF : F e)
    (hStableF : ∀ {a b : σ × γ} {o' : Option ω}, (o' = none ∨ o' ≠ o) → R.Change o' a b → F a → F b)
    (hStableP : ∀ {r : Except String (ans c)} {a b : σ × γ} {o' : Option ω}, (o' = none ∨ o' ≠ o) →
      R.Change o' a b → P r a → P r b)
    (hLand : ∀ a hint, R.Inv a → F a → R.Timely c a.1 → ∃ g,
      R.Change o a ((S.land c hint a.1).2, g) ∧ P (S.land c hint a.1).1 ((S.land c hint a.1).2, g))
    (hAnswer : ∀ r a, R.Inv a → P r a → R.Safe S o Q (next r) a)
    (hFail : ∀ r a, R.Inv a → P r a → ¬(R.Clean c ∧ r.isOk) → ∀ message, ∃ g,
      R.Change o a (a.1, g) ∧ R.Safe S o Q (next (.error message)) (a.1, g))
    (hLose : ∀ a, R.Inv a → F a → ∀ message, ∃ g, R.Change o a (a.1, g) ∧
      (¬R.Clean c → R.Stray c (a.1, g)) ∧ R.Safe S o Q (next (.error message)) (a.1, g)) :
    R.Safe S o Q (.call c next) e := by
  intro e' hInv hRely
  have hNow : F e' := hRely.stable (fun hOther _ hChange => hStableF hOther hChange) hF
  refine ⟨fun hint hTimely => ?_, hLose e' hInv hNow⟩
  obtain ⟨g, hChange, hP⟩ := hLand e' hint hInv hNow hTimely
  refine ⟨g, hChange, fun e'' hInv'' hRely'' => ?_⟩
  have hLater := hRely''.stable (fun hOther _ hChange => hStableP hOther hChange) hP
  exact ⟨hAnswer _ e'' hInv'' hLater, hFail _ e'' hInv'' hLater⟩

/-- A program that waits may wait longer. -/
theorem Safe.later {p : Prog κ τ ans Unit} (h : R.Safe S o (fun _ _ => True) p e)
    (hRely : R.Rely o e e') : R.Safe S o (fun _ _ => True) p e' := by
  cases p with
  | done a => exact trivial
  | look next => exact fun e'' hInv hRely' => h e'' hInv (hRely.trans hRely')
  | call c next => exact fun e'' hInv hRely' => h e'' hInv (hRely.trans hRely')

/-! ## Every step of a pool is a change -/

variable (R S) in
def TaskSafe (o : Option ω) : Task κ τ ans → σ × γ → Prop
  | .running p, e => R.Safe S o (fun _ _ => True) p e
  | .landed c r next, e => ∀ e', R.Inv e' → R.Rely o e e' →
      R.Safe S o (fun _ _ => True) (next r) e' ∧
      (¬(R.Clean c ∧ r.isOk) → ∀ message, ∃ g,
        R.Change o e' (e'.1, g) ∧ R.Safe S o (fun _ _ => True) (next (.error message)) (e'.1, g))

theorem TaskSafe.later {t : Task κ τ ans} (h : R.TaskSafe S o t e) (hRely : R.Rely o e e') :
    R.TaskSafe S o t e' := by
  cases t with
  | running p => exact Safe.later h hRely
  | landed c r next => exact fun e'' hInv hRely' => h e'' hInv (hRely.trans hRely')

def Apart (o o' : Option ω) : Prop :=
  o = none ∨ o ≠ o'

theorem Apart.symm {o o' : Option ω} (h : Apart o o') : Apart o' o := by
  rcases h with rfl | h
  · cases o' with
    | none => exact Or.inl rfl
    | some p => exact Or.inr (Option.some_ne_none p)
  · exact Or.inr h.symm

variable (R S) in
/-- The pool keeps to the rules, with the ghost `g`. -/
structure Sound (w : Pool σ κ τ ans ω) (g : γ) : Prop where
  inv : R.Inv (w.state, g)
  tasks : ∀ t ∈ w.tasks, R.TaskSafe S t.1 t.2 (w.state, g)
  apart : (w.tasks.map Prod.fst).Pairwise Apart
  begun : ∀ t ∈ w.tasks, ∀ p, t.1 = some p → R.Begun p (w.state, g)
  strays : ∀ c ∈ w.strays, ¬R.Clean c → R.Stray c (w.state, g)

/-- A change of the party `o` at one task keeps the others as they are. -/
theorem Sound.act {w : Pool σ κ τ ans ω} {g g' : γ} (hKept : R.Kept S) (hSound : R.Sound S w g)
    {i : ℕ} {o : Option ω} {t : Task κ τ ans} (hAt : w.tasks[i]? = some (o, t))
    (t' : Task κ τ ans) {s' : σ} (hChange : R.Change o (w.state, g) (s', g'))
    (hTask : R.TaskSafe S o t' (s', g')) {strays : List κ}
    (hStrays : ∀ c ∈ strays, ¬R.Clean c → R.Stray c (s', g')) :
    R.Sound S ⟨s', w.tasks.set i (o, t'), strays⟩ g' := by
  obtain ⟨hi, hGet⟩ := List.getElem?_eq_some_iff.mp hAt
  have hInv : R.Inv (s', g') := hKept.inv hSound.inv hChange
  have hParties : (w.tasks.set i (o, t')).map Prod.fst = w.tasks.map Prod.fst := by
    rw [List.map_set]
    apply List.ext_getElem?
    intro j
    rw [List.getElem?_set]
    split
    · subst j
      simp [hi, hGet]
    · rfl
  refine ⟨hInv, fun t'' ht => ?_, hParties ▸ hSound.apart, fun t'' ht p hp => ?_, hStrays⟩
  · obtain ⟨j, hj, rfl⟩ := List.getElem_of_mem ht
    rw [List.length_set] at hj
    rw [List.getElem_set]
    split
    · exact hTask
    · next hNe =>
      have hApart : Apart o w.tasks[j].1 := by
        have hPairs := List.pairwise_iff_getElem.mp hSound.apart
        simp only [List.length_map, List.getElem_map] at hPairs
        rcases Nat.lt_or_gt_of_ne hNe with h | h
        · simpa only [hGet] using hPairs i j hi hj h
        · simpa only [hGet] using (hPairs j i hj hi h).symm
      exact (hSound.tasks _ (List.getElem_mem hj)).later
        (ReflTransGen.single ⟨hInv, o, hApart, hChange⟩)
  · obtain ⟨t₀, ht₀, hEq⟩ : ∃ t₀ ∈ w.tasks, t₀.1 = t''.1 := by
      have hMem := List.mem_map_of_mem (f := Prod.fst) ht
      rw [hParties] at hMem
      exact List.mem_map.mp hMem
    exact hKept.begun (hSound.begun t₀ ht₀ p (hEq.trans hp)) hChange

/-- A change of no party keeps every task. -/
theorem Sound.quiet {w : Pool σ κ τ ans ω} {g g' : γ} (hKept : R.Kept S) (hSound : R.Sound S w g)
    {s' : σ} (hChange : R.Change none (w.state, g) (s', g')) {strays : List κ}
    (hStrays : ∀ c ∈ strays, c ∈ w.strays) : R.Sound S ⟨s', w.tasks, strays⟩ g' := by
  have hInv : R.Inv (s', g') := hKept.inv hSound.inv hChange
  refine ⟨hInv, fun t ht => ?_, hSound.apart, fun t ht p hp => ?_, fun c hc hClean => ?_⟩
  · exact (hSound.tasks t ht).later (ReflTransGen.single ⟨hInv, none, Or.inl rfl, hChange⟩)
  · exact hKept.begun (hSound.begun t ht p hp) hChange
  · exact hKept.stray (hSound.strays c (hStrays c hc) hClean) hChange

theorem Sound.strays_change {w : Pool σ κ τ ans ω} {g g' : γ} (hKept : R.Kept S)
    (hSound : R.Sound S w g) {o : Option ω} {s' : σ} (hChange : R.Change o (w.state, g) (s', g')) :
    ∀ c ∈ w.strays, ¬R.Clean c → R.Stray c (s', g') :=
  fun c hc hClean => hKept.stray (hSound.strays c hc hClean) hChange

/-- A step that lands only what is timely, and whose clean calls fail without effect, is a change
that keeps the pool sound. -/
theorem Sound.step {w w' : Pool σ κ τ ans ω} {g : γ} (hKept : R.Kept S) (hSound : R.Sound S w g)
    {ev : Event η ι ε} (hStep : S.step w ev = some w')
    (hTimely : ∀ c, w.landing ev = some c → R.Timely c w.state)
    (hClean : ∀ c, S.failedInEffect w ev = some c → ¬R.Clean c) :
    ∃ o g', R.Change o (w.state, g) (w'.state, g') ∧ R.Sound S w' g' := by
  cases ev with
  | start j =>
    obtain ⟨s, hStart, rfl⟩ := Option.map_eq_some_iff.mp hStep
    obtain ⟨g', hChange, hSafe, hBegun⟩ := hKept.start hSound.inv hStart
    refine ⟨none, g', hChange, ?_⟩
    have hQuiet := hSound.quiet hKept hChange fun c hc => hc
    refine ⟨hQuiet.inv, fun t ht => ?_, ?_, fun t ht p hp => ?_, hQuiet.strays⟩
    · rcases List.mem_append.mp ht with ht | ht
      · exact hQuiet.tasks t ht
      · rw [List.mem_singleton.mp ht]
        exact hSafe
    · rw [List.map_append, List.pairwise_append]
      refine ⟨hSound.apart, List.pairwise_singleton _ _, fun o ho o' ho' => ?_⟩
      rw [List.mem_singleton.mp ho']
      obtain ⟨t, ht, rfl⟩ := List.mem_map.mp ho
      cases hParty : t.1 with
      | none => exact Or.inl rfl
      | some p =>
        refine Or.inr fun hEq => ?_
        exact (hBegun p hEq.symm).1 (hSound.begun t ht p hParty)
    · rcases List.mem_append.mp ht with ht | ht
      · exact hQuiet.begun t ht p hp
      · rw [List.mem_singleton.mp ht] at hp
        exact (hBegun p hp).2
  | look i =>
    simp only [System.step] at hStep
    split at hStep
    · next o next hAt =>
      obtain rfl := Option.some.inj hStep
      have hSafe := hSound.tasks _ (List.mem_of_getElem? hAt)
      exact ⟨o, g, hKept.refl _ _, hSound.act hKept hAt (.running (next (S.look w.state)))
        (hKept.refl _ _) (hSafe _ hSound.inv ReflTransGen.refl) hSound.strays⟩
    · cases hStep
  | land i hint =>
    simp only [System.step] at hStep
    split at hStep
    · next o c next hAt =>
      obtain rfl := Option.some.inj hStep
      have hSafe := hSound.tasks _ (List.mem_of_getElem? hAt)
      have hNow : R.Timely c w.state := hTimely c (by simp only [Pool.landing, hAt])
      obtain ⟨g', hChange, hTold⟩ := (hSafe _ hSound.inv ReflTransGen.refl).1 hint hNow
      exact ⟨o, g', hChange, hSound.act hKept hAt (.landed c (S.land c hint w.state).1 next)
        hChange hTold (hSound.strays_change hKept hChange)⟩
    · cases hStep
  | answer i =>
    simp only [System.step] at hStep
    split at hStep
    · next o c r next hAt =>
      obtain rfl := Option.some.inj hStep
      have hSafe := hSound.tasks _ (List.mem_of_getElem? hAt)
      exact ⟨o, g, hKept.refl _ _, hSound.act hKept hAt (.running (next r)) (hKept.refl _ _)
        (hSafe _ hSound.inv ReflTransGen.refl).1 hSound.strays⟩
    · cases hStep
  | lose i message =>
    simp only [System.step] at hStep
    split at hStep
    · next o c next hAt =>
      obtain rfl := Option.some.inj hStep
      have hSafe := hSound.tasks _ (List.mem_of_getElem? hAt)
      obtain ⟨g', hChange, hStray, hNext⟩ := (hSafe _ hSound.inv ReflTransGen.refl).2 message
      refine ⟨o, g', hChange, hSound.act hKept hAt (.running (next (.error message))) hChange
        hNext fun c' hc' hNot => ?_⟩
      rcases List.mem_append.mp hc' with hc' | hc'
      · exact hSound.strays_change hKept hChange c' hc' hNot
      · rw [List.mem_singleton.mp hc'] at hNot ⊢
        exact hStray hNot
    · next o c r next hAt =>
      obtain rfl := Option.some.inj hStep
      have hSafe := hSound.tasks _ (List.mem_of_getElem? hAt)
      have hMay : ¬(R.Clean c ∧ r.isOk) := by
        rintro ⟨hc, hOk⟩
        cases r with
        | error m => cases hOk
        | ok a => exact hClean c (by simp only [System.failedInEffect, hAt]) hc
      obtain ⟨g', hChange, hNext⟩ := (hSafe _ hSound.inv ReflTransGen.refl).2 hMay message
      exact ⟨o, g', hChange, hSound.act hKept hAt (.running (next (.error message))) hChange hNext
        (hSound.strays_change hKept hChange)⟩
    · cases hStep
  | stray i hint =>
    obtain ⟨c, hAt, rfl⟩ := Option.map_eq_some_iff.mp hStep
    have hStrays : ∀ c' ∈ w.strays.eraseIdx i, c' ∈ w.strays := fun c' hc' =>
      List.mem_of_mem_eraseIdx hc'
    by_cases hc : R.Clean c
    · -- a clean call that strays may still be refused
      have hRefused : (S.land c hint w.state).1.isOk = false := by
        refine Bool.eq_false_iff.mpr fun hOk => hClean c ?_ hc
        rw [System.failedInEffect, hAt, Option.filter_some, if_pos hOk]
      have hSame : (S.land c hint w.state).2 = w.state := hKept.refused hc hRefused
      refine ⟨none, g, ?_, ?_⟩
      · rw [hSame]
        exact hKept.refl _ _
      · rw [hSame]
        exact hSound.quiet hKept (hKept.refl _ _) hStrays
    · have hStray := hSound.strays c (List.mem_of_getElem? hAt) hc
      obtain ⟨g', hChange⟩ := hKept.lands hSound.inv hStray hc
        (hTimely c (by simp only [Pool.landing, hAt]))
      exact ⟨none, g', hChange, hSound.quiet hKept hChange hStrays⟩
  | elsewhere x =>
    obtain ⟨s, hElse, rfl⟩ := Option.map_eq_some_iff.mp hStep
    obtain ⟨g', hChange⟩ := hKept.elsewhere hSound.inv hElse
    exact ⟨none, g', hChange, hSound.quiet hKept hChange fun c hc => hc⟩

variable (R S) in
/-- The moves of a run that land only what is timely, their clean calls failing without effect. -/
def Fair (m : Move (Pool σ κ τ ans ω) (Event η ι ε)) : Prop :=
  (∀ c, m.before.landing m.event = some c → R.Timely c m.before.state) ∧
    ∀ c, S.failedInEffect m.before m.event = some c → ¬R.Clean c

/-- Every state of a fair run is sound and every move a change. -/
theorem Sound.run {start w : Pool σ κ τ ans ω} {g : γ} {moves : List (Move _ (Event η ι ε))}
    (hKept : R.Kept S) (hSound : R.Sound S start g) (hRun : S.PoolRun start moves w)
    (hFair : ∀ m ∈ moves, R.Fair S m) :
    (∃ g', R.Sound S w g') ∧ ∀ m ∈ moves, ∃ o g' g'', R.Sound S m.before g' ∧
      R.Change o (m.before.state, g') (m.after.state, g'') := by
  obtain ⟨hLast, hBefore⟩ := hRun.invariant_of_allowed (I := fun w => ∃ g', R.Sound S w g')
    (R.Fair S) hFair ⟨g, hSound⟩ fun w e w' hI hStep hAllowed => by
      obtain ⟨g', hSound'⟩ := hI
      obtain ⟨_, g'', _, hNext⟩ := hSound'.step hKept hStep hAllowed.1 hAllowed.2
      exact ⟨g'', hNext⟩
  refine ⟨hLast, fun m hm => ?_⟩
  obtain ⟨g', hSound'⟩ := hBefore m hm
  obtain ⟨o, g'', hChange, _⟩ :=
    hSound'.step hKept (hRun.step_of_mem m hm) (hFair m hm).1 (hFair m hm).2
  exact ⟨o, g', g'', hSound', hChange⟩

end Rules

end LossyCalls
