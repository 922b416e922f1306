import Mathlib.Data.List.Nodup
import Mathlib.Data.List.Perm.Subperm
import Mathlib.Logic.Function.Iterate
import Mathlib.Logic.Relation

/-!
# Breadth-first walks

From a root, hop by hop, every node is found once. The hops come to an end on every graph; what is
found is what can be reached.
-/

namespace BreadthFirst

open Relation

universe u v

/-- The nodes by their id. -/
structure Graph (α : Type u) (ι : Type v) where
  nodes : List α
  id : α → ι
  edge : α → α → Bool
  id_key : (nodes.map id).Nodup

/-- The ids visited, the nodes found, and of these the ones of the last hop. -/
structure Walk (α : Type u) (ι : Type v) where
  visited : List ι
  found : List α
  frontier : List α

variable {α : Type u} {ι : Type v}

namespace Graph

variable (g : Graph α ι)

def Edge (a b : α) : Prop := b ∈ g.nodes ∧ g.edge a b = true

def Reaches (root : α) : α → Prop := TransGen g.Edge root

variable [DecidableEq ι]

def visit (a : α) (w : Walk α ι) (node : α) : Walk α ι :=
  if g.id node ∈ w.visited then w
  else if !g.edge a node then w
  else ⟨g.id node :: w.visited, w.found ++ [node], w.frontier ++ [node]⟩

/-- One hop on from the nodes found last. -/
def hop (w : Walk α ι) : Walk α ι :=
  w.frontier.foldl (fun w a => g.nodes.foldl (g.visit a) w) { w with frontier := [] }

omit [DecidableEq ι] in
def start (root : α) : Walk α ι := ⟨[g.id root], [], [root]⟩

/-- The walk ends with nothing found; past its hops it is given up. -/
@[grind =] def run : ℕ → Walk α ι → Option (List α)
  | _, ⟨_, found, []⟩ => some found
  | 0, _ => none
  | hops + 1, w => run hops (g.hop w)

end Graph

variable {g : Graph α ι}

theorem Graph.eq_of_id {a b : α} (ha : a ∈ g.nodes) (hb : b ∈ g.nodes) (h : g.id a = g.id b) :
    a = b := List.inj_on_of_nodup_map g.id_key ha hb h

variable [DecidableEq ι] {root : α} {w w' w'' : Walk α ι}

/-! ## One hop -/

/-- What some visits add to a walk. -/
structure Grown (g : Graph α ι) (visits : List (α × α)) (w w' : Walk α ι) (new : List α) :
    Prop where
  found : w'.found = w.found ++ new
  frontier : w'.frontier = w.frontier ++ new
  visited : ∀ i, i ∈ w'.visited ↔ i ∈ w.visited ∨ i ∈ new.map g.id
  nodup : (new.map g.id).Nodup
  fresh : ∀ b ∈ new, g.id b ∉ w.visited
  edge : ∀ b ∈ new, ∃ a, (a, b) ∈ visits ∧ g.edge a b = true
  closed : ∀ a b, (a, b) ∈ visits → g.edge a b = true → g.id b ∈ w'.visited

omit [DecidableEq ι] in
theorem Grown.nil (w : Walk α ι) : Grown g [] w w [] where
  found := (List.append_nil _).symm
  frontier := (List.append_nil _).symm
  visited _ := (or_iff_left List.not_mem_nil).symm
  nodup := List.nodup_nil
  fresh := nofun
  edge := nofun
  closed := nofun

omit [DecidableEq ι] in
theorem Grown.append {visits visits' : List (α × α)} {new new' : List α}
    (h : Grown g visits w w' new) (h' : Grown g visits' w' w'' new') :
    Grown g (visits ++ visits') w w'' (new ++ new') where
  found := by rw [h'.found, h.found, List.append_assoc]
  frontier := by rw [h'.frontier, h.frontier, List.append_assoc]
  visited i := by rw [h'.visited, h.visited, List.map_append, List.mem_append, or_assoc]
  nodup := by
    rw [List.map_append]
    refine List.nodup_append.mpr ⟨h.nodup, h'.nodup, fun i hi j hj => ?_⟩
    obtain ⟨b, hb, rfl⟩ := List.mem_map.mp hj
    exact fun hEq => h'.fresh b hb ((h.visited _).mpr (.inr (hEq ▸ hi)))
  fresh b hb := by
    rcases List.mem_append.mp hb with hb | hb
    · exact h.fresh b hb
    · exact fun hOld => h'.fresh b hb ((h.visited _).mpr (.inl hOld))
  edge b hb := by
    rcases List.mem_append.mp hb with hb | hb
    · obtain ⟨a, ha, hEdge⟩ := h.edge b hb
      exact ⟨a, List.mem_append_left _ ha, hEdge⟩
    · obtain ⟨a, ha, hEdge⟩ := h'.edge b hb
      exact ⟨a, List.mem_append_right _ ha, hEdge⟩
  closed a b hVisit hEdge := by
    rcases List.mem_append.mp hVisit with hVisit | hVisit
    · exact (h'.visited _).mpr (.inl (h.closed a b hVisit hEdge))
    · exact h'.closed a b hVisit hEdge

theorem grown_visit (w : Walk α ι) (a b : α) : ∃ new, Grown g [(a, b)] w (g.visit a w b) new := by
  have hOnly : ∀ {P : α → α → Prop}, P a b → ∀ c d, (c, d) ∈ [(a, b)] → P c d := by
    intro P hP c d hMem
    obtain ⟨rfl, rfl⟩ := Prod.mk.inj (List.mem_singleton.mp hMem)
    exact hP
  rw [Graph.visit]
  split_ifs with hVisited hEdge
  · exact ⟨[], { Grown.nil w with edge := nofun, closed := hOnly fun _ => hVisited }⟩
  · refine ⟨[], { Grown.nil w with edge := nofun, closed := hOnly fun h => ?_ }⟩
    rw [h] at hEdge
    cases hEdge
  · refine ⟨[b], ⟨rfl, rfl, fun i => ?_, List.nodup_singleton _, fun c hc => ?_, fun c hc => ?_,
      hOnly fun _ => List.mem_cons_self⟩⟩
    · rw [List.mem_cons, or_comm, List.map_singleton, List.mem_singleton]
    · rw [List.mem_singleton.mp hc]
      exact hVisited
    · rw [List.mem_singleton.mp hc]
      exact ⟨a, List.mem_singleton.mpr rfl, by simpa using hEdge⟩

theorem grown_nodes (w : Walk α ι) (a : α) (nodes : List α) :
    ∃ new, Grown g (nodes.map (a, ·)) w (nodes.foldl (g.visit a) w) new := by
  induction nodes generalizing w with
  | nil => exact ⟨[], Grown.nil w⟩
  | cons b nodes ih =>
    obtain ⟨first, hFirst⟩ := grown_visit (g := g) w a b
    obtain ⟨rest, hRest⟩ := ih (g.visit a w b)
    exact ⟨first ++ rest, hFirst.append hRest⟩

theorem grown_frontier (w : Walk α ι) (frontier : List α) :
    ∃ new, Grown g (frontier.flatMap fun a => g.nodes.map (a, ·)) w
      (frontier.foldl (fun w a => g.nodes.foldl (g.visit a) w) w) new := by
  induction frontier generalizing w with
  | nil => exact ⟨[], Grown.nil w⟩
  | cons a frontier ih =>
    obtain ⟨first, hFirst⟩ := grown_nodes (g := g) w a g.nodes
    obtain ⟨rest, hRest⟩ := ih (g.nodes.foldl (g.visit a) w)
    rw [List.flatMap_cons]
    exact ⟨first ++ rest, hFirst.append hRest⟩

/-- The nodes a hop finds: those not visited that the frontier has an edge to. -/
structure Hopped (g : Graph α ι) (w w' : Walk α ι) : Prop where
  found : w'.found = w.found ++ w'.frontier
  visited : ∀ i, i ∈ w'.visited ↔ i ∈ w.visited ∨ i ∈ w'.frontier.map g.id
  nodup : (w'.frontier.map g.id).Nodup
  fresh : ∀ b ∈ w'.frontier, g.id b ∉ w.visited
  edge : ∀ b ∈ w'.frontier, ∃ a ∈ w.frontier, g.Edge a b
  closed : ∀ a ∈ w.frontier, ∀ b, g.Edge a b → g.id b ∈ w'.visited

theorem hopped (w : Walk α ι) : Hopped g w (g.hop w) := by
  obtain ⟨new, h⟩ := grown_frontier (g := g) { w with frontier := [] } w.frontier
  have hFrontier : (g.hop w).frontier = new := h.frontier
  refine ⟨?_, ?_, ?_, ?_, ?_, ?_⟩
  · rw [hFrontier]
    exact h.found
  · rw [hFrontier]
    exact h.visited
  · rw [hFrontier]
    exact h.nodup
  · rw [hFrontier]
    exact h.fresh
  · rw [hFrontier]
    intro b hb
    obtain ⟨a, hVisit, hEdge⟩ := h.edge b hb
    obtain ⟨c, hc, hVisit⟩ := List.mem_flatMap.mp hVisit
    obtain ⟨d, hd, hVisit⟩ := List.mem_map.mp hVisit
    obtain ⟨rfl, rfl⟩ := Prod.mk.inj hVisit
    exact ⟨c, hc, hd, hEdge⟩
  · rintro a ha b ⟨hb, hEdge⟩
    exact h.closed a b (List.mem_flatMap.mpr ⟨a, ha, List.mem_map.mpr ⟨b, hb, rfl⟩⟩) hEdge

/-! ## The whole walk -/

/-- What holds after every hop from `root`. -/
structure Searched (g : Graph α ι) (root : α) (w : Walk α ι) : Prop where
  visited : ∀ i, i ∈ w.visited ↔ i = g.id root ∨ i ∈ w.found.map g.id
  nodup : (w.found.map g.id).Nodup
  not_root : g.id root ∉ w.found.map g.id
  reached : ∀ b ∈ w.found, b ∈ g.nodes ∧ g.Reaches root b
  frontier : ∀ a ∈ w.frontier, a = root ∨ a ∈ w.found
  closed : ∀ a, a = root ∨ a ∈ w.found → a ∈ w.frontier ∨ ∀ b, g.Edge a b → g.id b ∈ w.visited

omit [DecidableEq ι] in
theorem searched_start (g : Graph α ι) (root : α) : Searched g root (g.start root) where
  visited _ := by simp [Graph.start]
  nodup := List.nodup_nil
  not_root := List.not_mem_nil
  reached := nofun
  frontier a ha := Or.inl (List.mem_singleton.mp ha)
  closed a ha := by
    rcases ha with rfl | ha
    · exact Or.inl (List.mem_singleton.mpr rfl)
    · cases ha

theorem Searched.hop (h : Searched g root w) : Searched g root (g.hop w) := by
  have hHop := hopped (g := g) w
  have hMem : ∀ a, a ∈ (g.hop w).found ↔ a ∈ w.found ∨ a ∈ (g.hop w).frontier := by
    intro a
    rw [hHop.found, List.mem_append]
  have hIds : ∀ i, i ∈ (g.hop w).found.map g.id ↔
      i ∈ w.found.map g.id ∨ i ∈ (g.hop w).frontier.map g.id := by
    intro i
    rw [hHop.found, List.map_append, List.mem_append]
  have hFresh : ∀ i ∈ (g.hop w).frontier.map g.id, i ∉ w.visited := by
    intro i hi
    obtain ⟨b, hb, rfl⟩ := List.mem_map.mp hi
    exact hHop.fresh b hb
  refine ⟨fun i => ?_, ?_, fun hRoot => ?_, fun b hb => ?_, fun a ha => ?_, fun a ha => ?_⟩
  · rw [hHop.visited, h.visited, hIds, or_assoc]
  · rw [hHop.found, List.map_append]
    refine List.nodup_append.mpr ⟨h.nodup, hHop.nodup, fun i hi j hj hEq => ?_⟩
    exact hFresh j hj ((h.visited j).mpr (Or.inr (hEq ▸ hi)))
  · rcases (hIds _).mp hRoot with hOld | hNew
    · exact h.not_root hOld
    · exact hFresh _ hNew ((h.visited _).mpr (Or.inl rfl))
  · rcases (hMem b).mp hb with hOld | hNew
    · exact h.reached b hOld
    · obtain ⟨a, ha, hEdge⟩ := hHop.edge b hNew
      refine ⟨hEdge.1, ?_⟩
      rcases h.frontier a ha with rfl | hFound
      · exact .single hEdge
      · exact (h.reached a hFound).2.tail hEdge
  · exact Or.inr ((hMem a).mpr (Or.inr ha))
  · have hOld : a = root ∨ a ∈ w.found ∨ a ∈ (g.hop w).frontier := by rwa [hMem] at ha
    rcases or_assoc.mpr hOld with hOld | hNew
    · right
      rcases h.closed a hOld with hFrontier | hClosed
      · exact hHop.closed a hFrontier
      · exact fun b hEdge => (hHop.visited _).mpr (Or.inl (hClosed b hEdge))
    · exact Or.inl hNew

theorem searched (g : Graph α ι) (root : α) (hops : ℕ) :
    Searched g root (g.hop^[hops] (g.start root)) := by
  induction hops with
  | zero => exact searched_start g root
  | succ hops ih =>
    rw [Function.iterate_succ_apply']
    exact ih.hop

omit [DecidableEq ι] in
/-- Once nothing new is found, everything that can be reached has been. -/
theorem Searched.mem_found (h : Searched g root w) (hRoot : root ∈ g.nodes)
    (hEnd : w.frontier = []) {b : α} : b ∈ w.found ↔ g.Reaches root b ∧ b ≠ root := by
  have hStep : ∀ a c, a = root ∨ a ∈ w.found → g.Edge a c → c = root ∨ c ∈ w.found := by
    intro a c ha hEdge
    rcases h.closed a ha with hFrontier | hClosed
    · rw [hEnd] at hFrontier
      cases hFrontier
    · rcases (h.visited _).mp (hClosed c hEdge) with hId | hId
      · exact Or.inl (Graph.eq_of_id hEdge.1 hRoot hId)
      · obtain ⟨d, hd, hId⟩ := List.mem_map.mp hId
        rw [← Graph.eq_of_id (h.reached d hd).1 hEdge.1 hId]
        exact Or.inr hd
  constructor
  · intro hb
    refine ⟨(h.reached b hb).2, ?_⟩
    rintro rfl
    exact h.not_root (List.mem_map_of_mem hb)
  · rintro ⟨hReaches, hNe⟩
    refine Or.resolve_left ?_ hNe
    induction hReaches with
    | single hEdge => exact hStep root _ (Or.inl rfl) hEdge
    | @tail c d _ hEdge ih =>
      by_cases hc : c = root
      · exact hStep c d (Or.inl hc) hEdge
      · exact hStep c d (ih hc) hEdge

/-! ## How many hops it takes -/

theorem hop_of_frontier_nil (h : w.frontier = []) : g.hop w = w := by
  obtain ⟨visited, found, frontier⟩ := w
  cases h
  rfl

theorem iterate_hop_of_frontier_nil (h : w.frontier = []) (hops : ℕ) : g.hop^[hops] w = w :=
  Function.iterate_fixed (hop_of_frontier_nil h) hops

theorem run_eq (hops : ℕ) (w : Walk α ι) :
    g.run hops w =
      if (g.hop^[hops] w).frontier = [] then some (g.hop^[hops] w).found else none := by
  induction hops generalizing w with
  | zero =>
    obtain ⟨visited, found, frontier⟩ := w
    cases frontier <;> rfl
  | succ hops ih =>
    by_cases hEnd : w.frontier = []
    · rw [iterate_hop_of_frontier_nil hEnd, if_pos hEnd]
      obtain ⟨visited, found, frontier⟩ := w
      cases hEnd
      rfl
    · rw [Function.iterate_succ_apply, ← ih]
      obtain ⟨visited, found, frontier⟩ := w
      cases frontier with
      | nil => exact absurd rfl hEnd
      | cons a frontier => rfl

theorem frontier_ne_nil_of_succ {hops : ℕ} (h : (g.hop^[hops + 1] w).frontier ≠ []) :
    (g.hop^[hops] w).frontier ≠ [] := by
  intro hEnd
  rw [Function.iterate_succ_apply', hop_of_frontier_nil hEnd] at h
  exact h hEnd

/-- Every hop that does not end the walk finds a node. -/
theorem le_length_found {hops : ℕ} (h : (g.hop^[hops] w).frontier ≠ []) :
    hops ≤ (g.hop^[hops] w).found.length := by
  induction hops with
  | zero => exact Nat.zero_le _
  | succ hops ih =>
    have hBefore := ih (frontier_ne_nil_of_succ h)
    rw [Function.iterate_succ_apply'] at h ⊢
    rw [(hopped _).found, List.length_append]
    exact Nat.add_le_add hBefore (List.length_pos_iff.mpr h)

/-- On every graph, with cycles or without, the walk ends. -/
theorem frontier_eq_nil (hRoot : root ∈ g.nodes) {hops : ℕ} (hLe : g.nodes.length ≤ hops) :
    (g.hop^[hops] (g.start root)).frontier = [] := by
  by_contra hOn
  have h := searched g root hops
  have hSub : root :: (g.hop^[hops] (g.start root)).found ⊆ g.nodes := by
    refine List.cons_subset.mpr ⟨hRoot, fun b hb => (h.reached b hb).1⟩
  have hNodup : (root :: (g.hop^[hops] (g.start root)).found).Nodup :=
    List.nodup_cons.mpr ⟨fun hMem => h.not_root (List.mem_map_of_mem hMem), h.nodup.of_map _⟩
  have hLength := (List.subperm_of_subset hNodup hSub).length_le
  rw [List.length_cons] at hLength
  have hFound := le_length_found hOn
  omega

/-- A rank that every edge raises bounds the hops. -/
theorem le_rank_of_frontier {rank : α → ℕ} (hRoot : root ∈ g.nodes)
    (hEdge : ∀ a ∈ g.nodes, ∀ b, g.Edge a b → rank a < rank b) (hops : ℕ) :
    ∀ b ∈ (g.hop^[hops] (g.start root)).frontier, hops ≤ rank b := by
  induction hops with
  | zero => exact fun b _ => Nat.zero_le _
  | succ hops ih =>
    have h := searched g root hops
    rw [Function.iterate_succ_apply']
    intro b hb
    obtain ⟨a, ha, hStep⟩ := (hopped _).edge b hb
    refine Nat.lt_of_le_of_lt (ih a ha) (hEdge a ?_ b hStep)
    rcases h.frontier a ha with rfl | hFound
    · exact hRoot
    · exact (h.reached a hFound).1

end BreadthFirst
