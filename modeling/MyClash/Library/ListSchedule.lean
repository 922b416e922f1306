import Mathlib.Algebra.Order.Group.Defs
import Mathlib.Algebra.Order.Monoid.Unbundled.Basic
import Mathlib.Data.List.Basic
import Mathlib.Logic.Function.Basic

/-!
# List scheduling

Jobs are placed one by one, in the order they are listed. A job takes one resource and some
actors, starts as soon as all of them are free, and keeps the resource for a pause after its end.
-/

namespace ListSchedule

universe u v w x

/-- What a job needs, how long it takes and how long its resource pauses after it. -/
structure Shop (α : Type u) (κ : Type v) (φ : Type w) (T : Type x) where
  resource : α → κ
  actors : α → List φ
  length : α → T
  pause : α → T

/-- When each resource and each actor is next free. -/
structure Free (κ : Type v) (φ : Type w) (T : Type x) where
  resource : κ → T
  actor : φ → T

variable {α : Type u} {κ : Type v} {φ : Type w} {T : Type x}

section Max

variable [LinearOrder T]

theorem le_foldl_max (f : φ → T) (actors : List φ) (t : T) :
    t ≤ actors.foldl (fun t actor => max t (f actor)) t := by
  induction actors generalizing t with
  | nil => exact le_refl t
  | cons actor actors ih => exact (le_max_left _ _).trans (ih _)

theorem actor_le_foldl_max (f : φ → T) {actors : List φ} {actor : φ} (h : actor ∈ actors) (t : T) :
    f actor ≤ actors.foldl (fun t actor => max t (f actor)) t := by
  induction actors generalizing t with
  | nil => cases h
  | cons first actors ih =>
    rcases List.mem_cons.mp h with rfl | h
    · exact (le_max_right _ _).trans (le_foldl_max f actors _)
    · exact ih h _

theorem foldl_max_cases (f : φ → T) (actors : List φ) (t : T) :
    actors.foldl (fun t actor => max t (f actor)) t = t ∨
      ∃ actor ∈ actors, actors.foldl (fun t actor => max t (f actor)) t = f actor := by
  induction actors generalizing t with
  | nil => exact Or.inl rfl
  | cons first actors ih =>
    rcases ih (max t (f first)) with hEq | ⟨actor, hActor, hEq⟩
    · rcases max_cases t (f first) with ⟨hMax, -⟩ | ⟨hMax, -⟩
      · exact Or.inl (hEq.trans hMax)
      · exact Or.inr ⟨first, List.mem_cons_self, hEq.trans hMax⟩
    · exact Or.inr ⟨actor, List.mem_cons_of_mem _ hActor, hEq⟩

end Max

namespace Shop

variable [LinearOrder T] {shop : Shop α κ φ T} {free free' : Free κ φ T} {job : α}
variable {jobs jobs' : List α}

/-- A job waits for its resource and for each of its actors. -/
def start (shop : Shop α κ φ T) (free : Free κ φ T) (job : α) : T :=
  (shop.actors job).foldl (fun t actor => max t (free.actor actor))
    (free.resource (shop.resource job))

theorem resource_le_start : free.resource (shop.resource job) ≤ shop.start free job :=
  le_foldl_max _ _ _

theorem actor_le_start {actor : φ} (h : actor ∈ shop.actors job) :
    free.actor actor ≤ shop.start free job :=
  actor_le_foldl_max _ h _

/-- A job starts when its resource is free, or the moment one of its actors is. -/
theorem start_cases (shop : Shop α κ φ T) (free : Free κ φ T) (job : α) :
    shop.start free job = free.resource (shop.resource job) ∨
      ∃ actor ∈ shop.actors job, shop.start free job = free.actor actor :=
  foldl_max_cases _ _ _

variable [AddCommGroup T]

def finish (shop : Shop α κ φ T) (free : Free κ φ T) (job : α) : T :=
  shop.start free job + shop.length job

variable [DecidableEq κ] [DecidableEq φ]

def take (shop : Shop α κ φ T) (free : Free κ φ T) (job : α) : Free κ φ T where
  resource := Function.update free.resource (shop.resource job)
    (shop.finish free job + shop.pause job)
  actor actor := if actor ∈ shop.actors job then shop.finish free job else free.actor actor

def run (shop : Shop α κ φ T) : Free κ φ T → List α → List (α × T)
  | _, [] => []
  | free, job :: jobs => (job, shop.start free job) :: run shop (shop.take free job) jobs

def after (shop : Shop α κ φ T) (free : Free κ φ T) (jobs : List α) : Free κ φ T :=
  jobs.foldl shop.take free

theorem run_append : shop.run free (jobs ++ jobs') =
    shop.run free jobs ++ shop.run (shop.after free jobs) jobs' := by
  induction jobs generalizing free with
  | nil => rfl
  | cons job jobs ih =>
    rw [List.cons_append, run, ih]
    rfl

@[simp] theorem map_fst_run (shop : Shop α κ φ T) (free : Free κ φ T) (jobs : List α) :
    (shop.run free jobs).map Prod.fst = jobs := by
  induction jobs generalizing free with
  | nil => rfl
  | cons job jobs ih => rw [run, List.map_cons, ih]

theorem fst_mem_of_mem_run {x : α × T} (hx : x ∈ shop.run free jobs) : x.1 ∈ jobs := by
  rw [← map_fst_run shop free jobs]
  exact List.mem_map_of_mem hx

@[simp] theorem take_resource : (shop.take free job).resource (shop.resource job) =
    shop.finish free job + shop.pause job :=
  Function.update_self _ _ _

theorem take_resource_of_ne {r : κ} (h : r ≠ shop.resource job) :
    (shop.take free job).resource r = free.resource r :=
  Function.update_of_ne h _ _

theorem take_actor {actor : φ} (h : actor ∈ shop.actors job) :
    (shop.take free job).actor actor = shop.finish free job :=
  if_pos h

theorem take_actor_of_notMem {actor : φ} (h : actor ∉ shop.actors job) :
    (shop.take free job).actor actor = free.actor actor :=
  if_neg h

theorem after_append : shop.after free (jobs ++ jobs') = shop.after (shop.after free jobs) jobs' :=
  List.foldl_append

theorem after_resource_of_ne {r : κ} (h : ∀ job ∈ jobs, r ≠ shop.resource job) :
    (shop.after free jobs).resource r = free.resource r := by
  induction jobs generalizing free with
  | nil => rfl
  | cons job jobs ih =>
    refine (ih fun later hLater => h later (List.mem_cons_of_mem _ hLater)).trans ?_
    exact take_resource_of_ne (h job List.mem_cons_self)

/-- Each job of a run starts as the jobs before it let it. -/
theorem start_of_run {before after : List (α × T)} {t : T}
    (h : shop.run free jobs = before ++ (job, t) :: after) :
    t = shop.start (shop.after free (before.map Prod.fst)) job := by
  induction before generalizing free jobs with
  | nil =>
    cases jobs with
    | nil => cases h
    | cons first jobs =>
      obtain ⟨hHead, -⟩ := List.cons.inj h
      obtain ⟨rfl, rfl⟩ := Prod.mk.inj hHead
      rfl
  | cons x before ih =>
    cases jobs with
    | nil => cases h
    | cons first jobs =>
      obtain ⟨rfl, hTail⟩ := List.cons.inj h
      exact ih hTail

/-- A run reads only the times of the resources and the actors of its jobs. -/
theorem run_congr (hResource : ∀ job ∈ jobs, free.resource (shop.resource job) =
      free'.resource (shop.resource job))
    (hActor : ∀ job ∈ jobs, ∀ actor ∈ shop.actors job, free.actor actor = free'.actor actor) :
    shop.run free jobs = shop.run free' jobs := by
  induction jobs generalizing free free' with
  | nil => rfl
  | cons job jobs ih =>
    have hStart : shop.start free job = shop.start free' job := by
      rw [start, start, hResource job List.mem_cons_self]
      refine List.foldl_ext _ _ _ fun t actor hMem => ?_
      rw [hActor job List.mem_cons_self actor hMem]
    have hFinish : shop.finish free job = shop.finish free' job := by rw [finish, hStart, finish]
    rw [run, run, hStart]
    congr 1
    refine ih (fun later hLater => ?_) fun later hLater actor hMem => ?_
    · by_cases hEq : shop.resource later = shop.resource job
      · rw [hEq, take_resource, take_resource, hFinish]
      · rw [take_resource_of_ne hEq, take_resource_of_ne hEq]
        exact hResource later (List.mem_cons_of_mem _ hLater)
    · by_cases hHeld : actor ∈ shop.actors job
      · rw [take_actor hHeld, take_actor hHeld, hFinish]
      · rw [take_actor_of_notMem hHeld, take_actor_of_notMem hHeld]
        exact hActor later (List.mem_cons_of_mem _ hLater) actor hMem

/-- Jobs that share nothing with a job start as if it had not been there. -/
theorem run_take_of_disjoint (hResource : ∀ later ∈ jobs, shop.resource later ≠ shop.resource job)
    (hActor : ∀ later ∈ jobs, ∀ actor ∈ shop.actors later, actor ∉ shop.actors job) :
    shop.run (shop.take free job) jobs = shop.run free jobs :=
  run_congr (fun later hLater => take_resource_of_ne (hResource later hLater))
    fun later hLater actor hMem => take_actor_of_notMem (hActor later hLater actor hMem)

/-- An actor is free as before the run, or the moment a job of the run lets go of it. -/
theorem after_actor_cases (shop : Shop α κ φ T) (free : Free κ φ T) (jobs : List α) (actor : φ) :
    (shop.after free jobs).actor actor = free.actor actor ∨
      ∃ x ∈ shop.run free jobs, actor ∈ shop.actors x.1 ∧
        (shop.after free jobs).actor actor = x.2 + shop.length x.1 := by
  induction jobs generalizing free with
  | nil => exact Or.inl rfl
  | cons job jobs ih =>
    rcases ih (shop.take free job) with hSame | ⟨x, hx, hMem, hEnd⟩
    · by_cases hHeld : actor ∈ shop.actors job
      · refine Or.inr ⟨(job, shop.start free job), List.mem_cons_self, hHeld, ?_⟩
        exact hSame.trans (take_actor hHeld)
      · exact Or.inl (hSame.trans (take_actor_of_notMem hHeld))
    · exact Or.inr ⟨x, List.mem_cons_of_mem _ hx, hMem, hEnd⟩

/-! ## Jobs keep apart -/

section Apart

variable [IsOrderedAddMonoid T]

/-- A job that goes by `y` after `x` has its resource and its actors only once `x` is done. -/
def Apart (shop : Shop α κ φ T) (x y : α × T) : Prop :=
  (shop.resource x.1 = shop.resource y.1 → x.2 + shop.length x.1 + shop.pause x.1 ≤ y.2) ∧
    ∀ actor ∈ shop.actors x.1, actor ∈ shop.actors y.1 → x.2 + shop.length x.1 ≤ y.2

theorem le_take_resource (hLength : 0 ≤ shop.length job) (hPause : 0 ≤ shop.pause job) (r : κ) :
    free.resource r ≤ (shop.take free job).resource r := by
  by_cases hEq : r = shop.resource job
  · subst hEq
    rw [take_resource, finish, add_assoc]
    exact le_add_of_le_of_nonneg resource_le_start (add_nonneg hLength hPause)
  · rw [take_resource_of_ne hEq]

theorem le_take_actor (hLength : 0 ≤ shop.length job) (actor : φ) :
    free.actor actor ≤ (shop.take free job).actor actor := by
  by_cases hHeld : actor ∈ shop.actors job
  · rw [take_actor hHeld, finish]
    exact le_add_of_le_of_nonneg (actor_le_start hHeld) hLength
  · rw [take_actor_of_notMem hHeld]

/-- Nothing starts before its resource and its actors were first free. -/
theorem le_start_of_mem_run (hLength : ∀ job ∈ jobs, 0 ≤ shop.length job)
    (hPause : ∀ job ∈ jobs, 0 ≤ shop.pause job) {x : α × T} (hx : x ∈ shop.run free jobs) :
    free.resource (shop.resource x.1) ≤ x.2 ∧
      ∀ actor ∈ shop.actors x.1, free.actor actor ≤ x.2 := by
  induction jobs generalizing free with
  | nil => cases hx
  | cons job jobs ih =>
    have hLengthJob := hLength job List.mem_cons_self
    have hPauseJob := hPause job List.mem_cons_self
    rcases List.mem_cons.mp hx with rfl | hx
    · exact ⟨resource_le_start, fun actor hMem => actor_le_start hMem⟩
    · obtain ⟨hResource, hActors⟩ := ih
        (fun later hLater => hLength later (List.mem_cons_of_mem _ hLater))
        (fun later hLater => hPause later (List.mem_cons_of_mem _ hLater)) hx
      exact ⟨(le_take_resource hLengthJob hPauseJob _).trans hResource,
        fun actor hMem => (le_take_actor hLengthJob actor).trans (hActors actor hMem)⟩

theorem pairwise_run (hLength : ∀ job ∈ jobs, 0 ≤ shop.length job)
    (hPause : ∀ job ∈ jobs, 0 ≤ shop.pause job) :
    (shop.run free jobs).Pairwise (Apart shop) := by
  induction jobs generalizing free with
  | nil => exact .nil
  | cons job jobs ih =>
    have hLengthRest := fun later hLater => hLength later (List.mem_cons_of_mem _ hLater)
    have hPauseRest := fun later hLater => hPause later (List.mem_cons_of_mem _ hLater)
    refine .cons (fun y hy => ?_) (ih hLengthRest hPauseRest)
    obtain ⟨hResource, hActors⟩ := le_start_of_mem_run hLengthRest hPauseRest hy
    refine ⟨fun hEq => ?_, fun actor hHeld hMem => ?_⟩
    · rw [← hEq, take_resource] at hResource
      exact hResource
    · have hFree := hActors actor hMem
      rw [take_actor hHeld] at hFree
      exact hFree

/-- Of two jobs of a list the later one keeps apart from the earlier one. -/
theorem apart_of_sublist (hLength : ∀ job ∈ jobs, 0 ≤ shop.length job)
    (hPause : ∀ job ∈ jobs, 0 ≤ shop.pause job) {a b : α} (h : [a, b].Sublist jobs) :
    ∃ s t, (a, s) ∈ shop.run free jobs ∧ (b, t) ∈ shop.run free jobs ∧
      Apart shop (a, s) (b, t) := by
  rw [← map_fst_run shop free jobs] at h
  obtain ⟨pair, hPair, hMap⟩ := List.sublist_map_iff.mp h
  obtain ⟨⟨_, s⟩, tail, rfl, rfl, hTail⟩ := List.map_eq_cons_iff.mp hMap.symm
  obtain ⟨⟨_, t⟩, rest, rfl, rfl, hRest⟩ := List.map_eq_cons_iff.mp hTail
  have hApart : (shop.run free jobs).Pairwise (Apart shop) := pairwise_run hLength hPause
  refine ⟨s, t, hPair.subset List.mem_cons_self,
    hPair.subset (List.mem_cons_of_mem _ List.mem_cons_self), ?_⟩
  exact (List.pairwise_cons.mp (hApart.sublist hPair)).1 _ List.mem_cons_self

/-- A job right behind another on one resource starts when that one has paused. Only an actor
still held elsewhere, by a job that ends at that very moment, makes it start later. -/
theorem next_start {before : List α} {a b : α}
    (hLength : ∀ job ∈ before ++ [a], 0 ≤ shop.length job)
    (hPause : ∀ job ∈ before ++ [a], 0 ≤ shop.pause job)
    (hSame : shop.resource a = shop.resource b)
    (hFirst : ∀ actor ∈ shop.actors b, free.actor actor ≤ free.resource (shop.resource a)) :
    let due := shop.start (shop.after free before) a + shop.length a + shop.pause a
    let next := shop.start (shop.after free (before ++ [a])) b
    due ≤ next ∧ (due < next → ∃ z ∈ shop.run free (before ++ [a]),
      shop.resource z.1 ≠ shop.resource b ∧ z.2 + shop.length z.1 = next ∧
        ∃ actor ∈ shop.actors z.1, actor ∈ shop.actors b) := by
  intro due next
  have hDue : (shop.after free (before ++ [a])).resource (shop.resource b) = due := by
    rw [after_append, ← hSame]
    exact take_resource
  have hRun : shop.run free (before ++ [a]) =
      shop.run free before ++ [(a, shop.start (shop.after free before) a)] := run_append
  have hMem : (a, shop.start (shop.after free before) a) ∈ shop.run free (before ++ [a]) := by
    rw [hRun]
    exact List.mem_append_right _ (List.mem_singleton.mpr rfl)
  have hLengthA := hLength a (List.mem_append_right _ (List.mem_singleton.mpr rfl))
  have hPauseA := hPause a (List.mem_append_right _ (List.mem_singleton.mpr rfl))
  have hStart : shop.start (shop.after free before) a ≤ due :=
    le_add_of_le_of_nonneg (le_add_of_nonneg_right hLengthA) hPauseA
  refine ⟨hDue ▸ resource_le_start, fun hLate => ?_⟩
  have hActor : ∃ actor ∈ shop.actors b, next = (shop.after free (before ++ [a])).actor actor := by
    rcases start_cases shop (shop.after free (before ++ [a])) b with hEq | hActor
    · exact absurd (hEq.trans hDue) hLate.ne'
    · exact hActor
  obtain ⟨actor, hHeld, hNext⟩ := hActor
  rcases after_actor_cases shop free (before ++ [a]) actor with hFree | ⟨z, hz, hShared, hEnd⟩
  · have hFreeA := (le_start_of_mem_run hLength hPause hMem).1
    have hLe := (hFirst actor hHeld).trans (hFreeA.trans hStart)
    rw [← hFree, ← hNext] at hLe
    exact absurd hLate hLe.not_gt
  · refine ⟨z, hz, fun hResource => ?_, (hNext.trans hEnd).symm, actor, hShared, hHeld⟩
    have hLe : z.2 + shop.length z.1 ≤ due := by
      have hApart : (shop.run free (before ++ [a])).Pairwise (Apart shop) :=
        pairwise_run hLength hPause
      rw [hRun] at hz hApart
      rcases List.mem_append.mp hz with hz | hz
      · have hPair := (List.pairwise_append.mp hApart).2.2 z hz _ (List.mem_singleton.mpr rfl)
        have hPauseZ := hPause z.1 (List.mem_append_left _ (fst_mem_of_mem_run hz))
        exact (le_add_of_nonneg_right hPauseZ).trans
          ((hPair.1 (hResource.trans hSame.symm)).trans hStart)
      · rw [List.mem_singleton.mp hz]
        exact le_add_of_nonneg_right hPauseA
    rw [← hEnd, ← hNext] at hLe
    exact absurd hLate hLe.not_gt

theorem next_of_run {before after : List (α × T)} {a b : α} {s t : T}
    (hRun : shop.run free jobs = before ++ (a, s) :: (b, t) :: after)
    (hLength : ∀ job ∈ jobs, 0 ≤ shop.length job) (hPause : ∀ job ∈ jobs, 0 ≤ shop.pause job)
    (hSame : shop.resource a = shop.resource b)
    (hFirst : ∀ actor ∈ shop.actors b, free.actor actor ≤ free.resource (shop.resource a)) :
    s + shop.length a + shop.pause a ≤ t ∧ (s + shop.length a + shop.pause a < t →
      ∃ z ∈ shop.run free jobs, shop.resource z.1 ≠ shop.resource b ∧
        z.2 + shop.length z.1 = t ∧ ∃ actor ∈ shop.actors z.1, actor ∈ shop.actors b) := by
  have hSplit : shop.run free jobs = (before ++ [(a, s)]) ++ (b, t) :: after := by
    rw [hRun, List.append_assoc]
    rfl
  have hJobs := congrArg (List.map Prod.fst) hRun
  rw [map_fst_run, List.map_append, List.map_cons, List.map_cons, List.append_cons] at hJobs
  subst hJobs
  have hPrefix : ∀ job ∈ before.map Prod.fst ++ [a], job ∈
      before.map Prod.fst ++ [a] ++ b :: after.map Prod.fst :=
    fun job hJob => List.mem_append_left _ hJob
  have hNext := next_start (fun job hJob => hLength job (hPrefix job hJob))
    (fun job hJob => hPause job (hPrefix job hJob)) hSame hFirst
  have hS := start_of_run hRun
  have hT := start_of_run hSplit
  rw [List.map_append, List.map_cons, List.map_nil] at hT
  rw [hS, hT]
  refine ⟨hNext.1, fun hLate => ?_⟩
  obtain ⟨z, hz, hOther⟩ := hNext.2 hLate
  refine ⟨z, ?_, hOther⟩
  rw [run_append]
  exact List.mem_append_left _ hz

end Apart

end Shop

end ListSchedule
