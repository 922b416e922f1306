import Mathlib.Order.Compare
import Mathlib.Tactic.TypeStar

/-!
# Comparison along a chain of rules

The first rule of the chain that separates two elements decides between them.
-/

namespace RuleChain

universe u v

variable {α : Type u} {ρ : Type v}

@[grind =] def compareChain (cmp : ρ → α → α → Ordering) : List ρ → α → α → Ordering
  | [], _, _ => .eq
  | rule :: chain, a, b => (cmp rule a b).then (compareChain cmp chain a b)

/-- No rule of the chain separates the two. -/
def Level (cmp : ρ → α → α → Ordering) (chain : List ρ) (a b : α) : Prop :=
  ∀ rule ∈ chain, cmp rule a b = .eq

/-- The first rule that separates the two puts `a` before `b`. -/
def Ahead (cmp : ρ → α → α → Ordering) (chain : List ρ) (a b : α) : Prop :=
  ∃ before rule after, chain = before ++ rule :: after ∧ Level cmp before a b ∧ cmp rule a b = .lt

/-- The rule that decides between the two. -/
def deciding? (cmp : ρ → α → α → Ordering) (chain : List ρ) (a b : α) : Option ρ :=
  chain.find? fun rule => cmp rule a b ≠ .eq

variable {cmp : ρ → α → α → Ordering} {chain : List ρ} {a b : α}

theorem level_nil : Level cmp [] a b := nofun

theorem level_cons {rule : ρ} :
    Level cmp (rule :: chain) a b ↔ cmp rule a b = .eq ∧ Level cmp chain a b := List.forall_mem_cons

theorem compareChain_eq_iff : compareChain cmp chain a b = .eq ↔ Level cmp chain a b := by
  induction chain with
  | nil => exact ⟨fun _ => level_nil, fun _ => rfl⟩
  | cons rule chain ih => rw [compareChain, Ordering.then_eq_eq, level_cons, ih]

theorem compareChain_append (chain chain' : List ρ) (a b : α) :
    compareChain cmp (chain ++ chain') a b =
      (compareChain cmp chain a b).then (compareChain cmp chain' a b) := by
  induction chain with
  | nil => rfl
  | cons rule chain ih =>
    rw [List.cons_append, compareChain, compareChain, ih, Ordering.then_assoc]

theorem compareChain_lt_iff : compareChain cmp chain a b = .lt ↔ Ahead cmp chain a b := by
  constructor
  · induction chain with
    | nil => intro h; cases h
    | cons rule chain ih =>
      intro h
      rcases Ordering.then_eq_lt.mp h with hRule | ⟨hRule, hChain⟩
      · exact ⟨[], rule, chain, rfl, level_nil, hRule⟩
      · obtain ⟨before, decider, after, rfl, hLevel, hLt⟩ := ih hChain
        exact ⟨rule :: before, decider, after, rfl, level_cons.mpr ⟨hRule, hLevel⟩, hLt⟩
  · rintro ⟨before, rule, after, rfl, hLevel, hLt⟩
    rw [compareChain_append, compareChain_eq_iff.mpr hLevel, compareChain, hLt]
    rfl

theorem deciding?_eq_none_iff : deciding? cmp chain a b = none ↔ Level cmp chain a b := by
  simp [deciding?, Level, List.find?_eq_none]

theorem deciding?_eq_some {rule : ρ} (h : deciding? cmp chain a b = some rule) :
    ∃ before after, chain = before ++ rule :: after ∧ Level cmp before a b ∧
      cmp rule a b ≠ .eq := by
  obtain ⟨hApart, before, after, rfl, hBefore⟩ := List.find?_eq_some_iff_append.mp h
  refine ⟨before, after, rfl, ?_, by simpa using hApart⟩
  intro other hOther
  simpa using hBefore other hOther

/-- Where `a` is not behind `b`, the deciding rule puts it before. -/
theorem lt_of_deciding? {before after : List ρ} {rule : ρ}
    (h : (compareChain cmp (before ++ rule :: after) a b).isLE)
    (hLevel : Level cmp before a b) (hApart : cmp rule a b ≠ .eq) : cmp rule a b = .lt := by
  rw [compareChain_append, compareChain_eq_iff.mpr hLevel, Ordering.eq_then, compareChain] at h
  cases hCmp : cmp rule a b with
  | lt => rfl
  | eq => exact absurd hCmp hApart
  | gt => rw [hCmp] at h; cases h

theorem compareChain_eq_deciding? (chain : List ρ) (a b : α) :
    compareChain cmp chain a b = (deciding? cmp chain a b).elim .eq (cmp · a b) := by
  cases hDecides : deciding? cmp chain a b with
  | none => exact compareChain_eq_iff.mpr (deciding?_eq_none_iff.mp hDecides)
  | some rule =>
    obtain ⟨before, after, rfl, hLevel, hApart⟩ := deciding?_eq_some hDecides
    rw [compareChain_append, compareChain_eq_iff.mpr hLevel, compareChain]
    cases hCmp : cmp rule a b with
    | eq => exact absurd hCmp hApart
    | lt => exact hCmp.symm
    | gt => exact hCmp.symm

section Trans

variable [∀ rule, Std.TransCmp (cmp rule)]

instance (chain : List ρ) : Std.TransCmp (compareChain cmp chain) := by
  induction chain with
  | nil => exact { eq_swap := rfl, isLE_trans := fun _ _ => rfl }
  | cons rule chain ih =>
    exact inferInstanceAs (Std.TransCmp (compareLex (cmp rule) (compareChain cmp chain)))

end Trans

/-! ## Chains with a rule named twice -/

section Repeats

variable {κ : Type*} [DecidableEq κ]

/-- The first rule of every key, but for those of the keys seen. -/
@[grind =] def dropRepeats (key : ρ → κ) : List κ → List ρ → List ρ
  | _, [] => []
  | seen, rule :: chain =>
    if key rule ∈ seen then dropRepeats key seen chain
    else rule :: dropRepeats key (key rule :: seen) chain

variable {key : ρ → κ} {seen : List κ}

theorem not_mem_dropRepeats {k : κ} (hSeen : k ∈ seen) (chain : List ρ) :
    k ∉ (dropRepeats key seen chain).map key := by
  induction chain generalizing seen with
  | nil => exact List.not_mem_nil
  | cons rule chain ih =>
    rw [dropRepeats]
    split_ifs with hRule
    · exact ih hSeen
    · intro hMem
      rcases List.mem_cons.mp hMem with rfl | hMem
      · exact hRule hSeen
      · exact ih (List.mem_cons_of_mem _ hSeen) hMem

theorem nodup_dropRepeats (seen : List κ) (chain : List ρ) :
    ((dropRepeats key seen chain).map key).Nodup := by
  induction chain generalizing seen with
  | nil => exact List.nodup_nil
  | cons rule chain ih =>
    rw [dropRepeats]
    split_ifs
    · exact ih seen
    · exact List.nodup_cons.mpr ⟨not_mem_dropRepeats List.mem_cons_self chain, ih _⟩

theorem dropRepeats_concat (seen : List κ) (chain : List ρ) (rule : ρ) :
    dropRepeats key seen (chain ++ [rule]) = dropRepeats key seen chain ++
      if key rule ∈ seen ++ (dropRepeats key seen chain).map key then [] else [rule] := by
  induction chain generalizing seen with
  | nil => simp [dropRepeats]
  | cons first chain ih =>
    rw [List.cons_append, dropRepeats, dropRepeats]
    by_cases hFirst : key first ∈ seen
    · rw [if_pos hFirst, if_pos hFirst]
      exact ih seen
    · have hSeen : ∀ kept : List ρ, key rule ∈ (key first :: seen) ++ kept.map key ↔
          key rule ∈ seen ++ (first :: kept).map key := by
        intro kept
        rw [List.map_cons, List.cons_append, List.mem_cons, List.mem_append, List.mem_append,
          List.mem_cons, or_left_comm]
      rw [if_neg hFirst, if_neg hFirst, ih, if_congr (hSeen _) rfl rfl, List.cons_append]

/-- A search by key alone finds the same rule with the repeats and without. -/
theorem find?_dropRepeats {p : ρ → Bool} (hKey : ∀ rule rule', key rule = key rule' →
    p rule = p rule') (hSeen : ∀ rule, key rule ∈ seen → p rule = false) (chain : List ρ) :
    (dropRepeats key seen chain).find? p = chain.find? p := by
  induction chain generalizing seen with
  | nil => rfl
  | cons rule chain ih =>
    rw [dropRepeats, List.find?_cons]
    split_ifs with hRule
    · rw [hSeen rule hRule]
      exact ih hSeen
    · rw [List.find?_cons]
      cases hFound : p rule with
      | true => rfl
      | false =>
        refine ih fun other hOther => ?_
        rcases List.mem_cons.mp hOther with hSame | hOther
        · exact (hKey other rule hSame).trans hFound
        · exact hSeen other hOther

end Repeats

end RuleChain
