import MyClash.Bracket.DoubleElimLaw
import MyClash.Bracket.SingleElimLaw
import MyClash.Library.BreadthFirst
import MyClash.Library.StableSort
import MyClash.MatchFormat.Config
import MyClash.MatchStatus

/-!
# Everything behind a bout

`dependentClosure`: breadth first over the texts of the stored references, one visit a slot,
deepest round first. On the rows of a generated bracket it gives every bout that can be reached,
and no later one is fed by an earlier one. On any rows at all it ends.
-/

namespace MyClash.Bracket.Dependents

open Knockout StableSort MatchFormat

universe u v

structure PhaseConfig where
  wbRounds : Option ℤ := none
  lbRounds : Option ℤ := none

/-- The columns a generated slot is written with. -/
structure SlotInsert where
  round : ℤ
  position : ℤ
  source_a_ref : Option String
  source_b_ref : Option String
  deriving DecidableEq

structure SlotRow (ι : Type u) extends SlotInsert where
  id : ι
  deriving DecidableEq

structure MatchRow where
  id : String
  status : MatchStatus
  started_at : Option String
  locked_at : Option String
  match_number_label : Option String

structure DependentBout (ι : Type u) where
  slotId : ι
  round : ℤ
  matchId : Option String
  status : Option MatchStatus
  startedAt : Option String
  lockedAt : Option String
  label : Option String
  hasBeenFought : Bool

structure PhaseGraph (ι : Type u) where
  phaseId : String
  phaseType : PhaseType
  config : PhaseConfig
  slots : List (SlotRow ι)
  liveMatch : ι → Option MatchRow
  id_key : (slots.map SlotRow.id).Nodup

/-! ## The walk -/

def buildSelfRef (round position : ℤ) (phaseType : PhaseType) (config : PhaseConfig) : String :=
  if phaseType = .singleElim then "R" ++ toString round ++ "P" ++ toString position
  else
    let wbRounds := config.wbRounds.getD 0
    let lbRounds := config.lbRounds.getD 0
    if round ≤ wbRounds then "WBR" ++ toString round ++ "P" ++ toString position
    else if round ≤ wbRounds + lbRounds then
      "LBR" ++ toString (round - wbRounds) ++ "P" ++ toString position
    else if round = wbRounds + lbRounds + 1 then "GF"
    else "GFRESET"

/-- Both edges: a bronze bout hangs off `loser of`. -/
def isFedBy (slot : SlotInsert) (selfRef : String) : Bool :=
  let refs := ["winner of " ++ selfRef, "loser of " ++ selfRef]
  refs.contains (slot.source_a_ref.getD "") || refs.contains (slot.source_b_ref.getD "")

def toBout {ι : Type u} (slot : SlotRow ι) (row : Option MatchRow) : DependentBout ι where
  slotId := slot.id
  round := slot.round
  matchId := row.map MatchRow.id
  status := row.map MatchRow.status
  startedAt := row.bind MatchRow.started_at
  lockedAt := row.bind MatchRow.locked_at
  label := row.bind MatchRow.match_number_label
  hasBeenFought := row.any fun row => MyClash.hasBeenFought row.status row.started_at.isSome

def MAX_DEPTH : ℕ := 32

namespace PhaseGraph

variable {ι : Type u} (graph : PhaseGraph ι)

def selfRef (slot : SlotInsert) : String :=
  buildSelfRef slot.round slot.position graph.phaseType graph.config

def refs : BreadthFirst.Graph (SlotRow ι) ι where
  nodes := graph.slots
  id := SlotRow.id
  edge source slot := isFedBy slot.toSlotInsert (graph.selfRef source.toSlotInsert)
  id_key := graph.id_key

def bout (slot : SlotRow ι) : DependentBout ι := toBout slot (graph.liveMatch slot.id)

/-- The last hop the walk may take is number `MAX_DEPTH`, counted from 0. -/
def walk [DecidableEq ι] (rootSlot : SlotRow ι) : Except String (List (DependentBout ι)) :=
  match graph.refs.run (MAX_DEPTH + 1) (graph.refs.start rootSlot) with
  | none => .error (s!"Bracket dependency walk exceeded {MAX_DEPTH} rounds in phase " ++
      s!"{graph.phaseId} — the slot graph has a cycle")
  | some found =>
    .ok (sortWith (fun a b => compare b.round a.round) (found.map graph.bout))

/-! ## What it has to come to -/

/-- `slot` takes in the winner or the loser of `source`. -/
def Feeds (source slot : SlotRow ι) : Prop :=
  ∃ ref, (slot.source_a_ref = some ref ∨ slot.source_b_ref = some ref) ∧
    (ref = "winner of " ++ graph.selfRef source.toSlotInsert ∨
      ref = "loser of " ++ graph.selfRef source.toSlotInsert)

def Reaches (rootSlot : SlotRow ι) : SlotRow ι → Prop :=
  Relation.TransGen (fun source slot => slot ∈ graph.slots ∧ graph.Feeds source slot) rootSlot

/-- The slots that can be reached, each once. -/
structure Closure (rootSlot : SlotRow ι) (slots : List (SlotRow ι)) : Prop where
  mem_iff : ∀ slot, slot ∈ slots ↔ graph.Reaches rootSlot slot ∧ slot ≠ rootSlot
  nodup : (slots.map SlotRow.id).Nodup

end PhaseGraph

/-! ## The rows of a generated bracket -/

def singleElimInsert (slot : BracketSlot) : SlotInsert where
  round := slot.round
  position := slot.position
  source_a_ref := some (sourceText SlotRef.text slot.homeSource)
  source_b_ref := some (sourceText SlotRef.text slot.awaySource)

def doubleElimInsert (slot : DoubleElimSlot) : SlotInsert where
  round := slot.round
  position := slot.position
  source_a_ref := some (sourceText MatchRef.text slot.homeSource)
  source_b_ref := some (sourceText MatchRef.text slot.awaySource)

/-- The rows are those of a bracket the generators gave, read back in any order. -/
inductive PhaseGraph.Generated {ι : Type u} (graph : PhaseGraph ι) : Prop where
  | single_elim {fighterCount : ℕ} {size : Option ℕ} {bracket : SingleElimBracket}
      (made : singleElimBracket fighterCount size = .ok bracket)
      (phaseType : graph.phaseType = .singleElim)
      (rows : (graph.slots.map SlotRow.toSlotInsert).Perm (bracket.slots.map singleElimInsert))
  | double_elim {fighterCount : ℕ} {options : DoubleElimOptions} {bracket : DoubleElimBracket}
      (made : doubleElimBracket fighterCount options = .ok bracket)
      (phaseType : graph.phaseType = .doubleElim)
      (config : graph.config = ⟨some bracket.wbRounds, some bracket.lbRounds⟩)
      (rows : (graph.slots.map SlotRow.toSlotInsert).Perm (bracket.slots.map doubleElimInsert))

/-! ## The texts matched -/

theorem isFedBy_iff {slot : SlotInsert} {selfRef : String} : isFedBy slot selfRef = true ↔
    ∃ ref, (slot.source_a_ref = some ref ∨ slot.source_b_ref = some ref) ∧
      (ref = "winner of " ++ selfRef ∨ ref = "loser of " ++ selfRef) := by
  have hText : ∀ source : Option String,
      ["winner of " ++ selfRef, "loser of " ++ selfRef].contains (source.getD "") = true ↔
        ∃ ref, source = some ref ∧
          (ref = "winner of " ++ selfRef ∨ ref = "loser of " ++ selfRef) := by
    intro source
    rw [List.contains_iff_mem, List.mem_pair]
    cases source with
    | none =>
      have hEmpty : ∀ text : String, text ≠ "" → "" ≠ text ++ selfRef := by
        intro text hText hEq
        exact hText (String.append_eq_empty_iff.mp hEq.symm).1
      constructor
      · rintro (hEq | hEq)
        · exact absurd hEq (hEmpty _ (by decide))
        · exact absurd hEq (hEmpty _ (by decide))
      · rintro ⟨ref, hEq, -⟩
        cases hEq
    | some ref => simp
  rw [isFedBy, Bool.or_eq_true, hText, hText, ← exists_or]
  simp only [or_and_right]

namespace PhaseGraph

variable {ι : Type u} {graph : PhaseGraph ι} {rootSlot : SlotRow ι}

theorem edge_iff {source slot : SlotRow ι} :
    graph.refs.Edge source slot ↔ slot ∈ graph.slots ∧ graph.Feeds source slot :=
  and_congr_right' isFedBy_iff

theorem reaches_iff {slot : SlotRow ι} :
    graph.refs.Reaches rootSlot slot ↔ graph.Reaches rootSlot slot := by
  have hEdge : graph.refs.Edge =
      fun source slot => slot ∈ graph.slots ∧ graph.Feeds source slot := by
    funext source slot
    exact propext edge_iff
  rw [BreadthFirst.Graph.Reaches, hEdge, Reaches]

/-! ## Any rows -/

def byRound (a b : SlotRow ι) : Ordering := compare b.round a.round

instance : Std.TransCmp (byRound (ι := ι)) :=
  inferInstanceAs (Std.TransCmp fun a b : SlotRow ι => compareOn (·.round) b a)

theorem byRound_isLE {a b : SlotRow ι} : (byRound a b).isLE = true ↔ b.round ≤ a.round :=
  Std.isLE_compare

theorem sortWith_bouts (slots : List (SlotRow ι)) :
    sortWith (fun a b => compare b.round a.round) (slots.map graph.bout) =
      (sortWith byRound slots).map graph.bout :=
  (List.map_insertionSort (fun a b => (byRound a b).isLE)
    (fun a b : DependentBout ι => (compare b.round a.round).isLE) graph.bout slots fun _ _ _ _ => Iff.rfl).symm

variable [DecidableEq ι]

theorem closure_of_end (hRoot : rootSlot ∈ graph.slots) {hops : ℕ}
    (hEnd : (graph.refs.hop^[hops] (graph.refs.start rootSlot)).frontier = []) :
    graph.Closure rootSlot
      (sortWith byRound (graph.refs.hop^[hops] (graph.refs.start rootSlot)).found) := by
  have h := BreadthFirst.searched graph.refs rootSlot hops
  refine ⟨fun slot => ?_, nodup_map_sortWith _ h.nodup⟩
  rw [mem_sortWith, h.mem_found hRoot hEnd, reaches_iff]

theorem walk_of_end
    (hEnd : (graph.refs.hop^[MAX_DEPTH + 1] (graph.refs.start rootSlot)).frontier = []) :
    graph.walk rootSlot = .ok ((sortWith byRound
      (graph.refs.hop^[MAX_DEPTH + 1] (graph.refs.start rootSlot)).found).map graph.bout) := by
  rw [walk, BreadthFirst.run_eq, if_pos hEnd, ← sortWith_bouts]

/-- The walk over any rows is given up or lists what can be reached. -/
theorem walk_cases (hRoot : rootSlot ∈ graph.slots) :
    (∃ message, graph.walk rootSlot = .error message) ∨
      ∃ slots, graph.walk rootSlot = .ok (slots.map graph.bout) ∧
        graph.Closure rootSlot slots := by
  by_cases hEnd : (graph.refs.hop^[MAX_DEPTH + 1] (graph.refs.start rootSlot)).frontier = []
  · exact Or.inr ⟨_, walk_of_end hEnd, closure_of_end hRoot hEnd⟩
  · left
    rw [walk, BreadthFirst.run_eq, if_neg hEnd]
    exact ⟨_, rfl⟩

end PhaseGraph

/-! ## Generated rows -/

/-- The rows stand for the nodes of a bracket whose rank is the round. -/
structure Stored {ι : Type u} {κ : Type v} (graph : PhaseGraph ι) (text : κ → String)
    (rank : κ → ℕ) (nodes : List (Node κ)) : Prop where
  text_injective : Function.Injective text
  ranked : Ranked rank nodes
  rank_le : ∀ n ∈ nodes, rank n.key ≤ MAX_DEPTH
  row : ∀ slot ∈ graph.slots, ∃ n ∈ nodes, graph.selfRef slot.toSlotInsert = text n.key ∧
    slot.round = rank n.key ∧ slot.source_a_ref = some (sourceText text n.home) ∧
    slot.source_b_ref = some (sourceText text n.away)

theorem reads_of_text {κ : Type v} {text : κ → String} (hText : Function.Injective text)
    {source : Feed κ} {k : κ} (h : sourceText text source = "winner of " ++ text k ∨
      sourceText text source = "loser of " ++ text k) : source.reads? = some k := by
  rcases h with h | h
  · rw [sourceText_injective hText (show sourceText text source =
      sourceText text (.winnerOf k) from h)]
    rfl
  · rw [sourceText_injective hText (show sourceText text source =
      sourceText text (.loserOf k) from h)]
    rfl

namespace Stored

variable {ι : Type u} {κ : Type v} {graph : PhaseGraph ι} {text : κ → String} {rank : κ → ℕ}
  {nodes : List (Node κ)} {rootSlot : SlotRow ι}

theorem round_lt (h : Stored graph text rank nodes) {source slot : SlotRow ι}
    (hSource : source ∈ graph.slots) (hSlot : slot ∈ graph.slots)
    (hFeeds : graph.Feeds source slot) : source.round < slot.round := by
  obtain ⟨n, -, hSelf, hRound, -, -⟩ := h.row source hSource
  obtain ⟨m, hm, -, hRound', hHome, hAway⟩ := h.row slot hSlot
  obtain ⟨ref, hSide, hRef⟩ := hFeeds
  rw [hSelf] at hRef
  rw [hRound, hRound', Nat.cast_lt]
  rcases hSide with hSide | hSide
  · rw [hHome] at hSide
    cases hSide
    exact h.ranked.home_lt m hm _ (reads_of_text h.text_injective hRef)
  · rw [hAway] at hSide
    cases hSide
    exact h.ranked.away_lt m hm _ (reads_of_text h.text_injective hRef)

theorem round_le (h : Stored graph text rank nodes) {slot : SlotRow ι}
    (hSlot : slot ∈ graph.slots) : 0 ≤ slot.round ∧ slot.round ≤ MAX_DEPTH := by
  obtain ⟨n, hn, -, hRound, -, -⟩ := h.row slot hSlot
  rw [hRound]
  exact ⟨Int.natCast_nonneg _, Nat.cast_le.mpr (h.rank_le n hn)⟩

variable [DecidableEq ι]

/-- Every hop raises the round, and there are not that many rounds. -/
theorem frontier_eq_nil (h : Stored graph text rank nodes) (hRoot : rootSlot ∈ graph.slots) :
    (graph.refs.hop^[MAX_DEPTH + 1] (graph.refs.start rootSlot)).frontier = [] := by
  have hEdge : ∀ a ∈ graph.slots, ∀ b, graph.refs.Edge a b → a.round.toNat < b.round.toNat := by
    intro a ha b hab
    obtain ⟨hb, hFeeds⟩ := PhaseGraph.edge_iff.mp hab
    have hLt := h.round_lt ha hb hFeeds
    have hPos := (h.round_le ha).1
    omega
  refine List.eq_nil_iff_forall_not_mem.mpr fun b hb => ?_
  have hHops := BreadthFirst.le_rank_of_frontier (g := graph.refs) hRoot hEdge _ b hb
  have hSearched := BreadthFirst.searched graph.refs rootSlot (MAX_DEPTH + 1)
  have hMem : b ∈ graph.slots := by
    rcases hSearched.frontier b hb with rfl | hFound
    · exact hRoot
    · exact (hSearched.reached b hFound).1
  have hLe := (h.round_le hMem).2
  omega

theorem walk (h : Stored graph text rank nodes) (hRoot : rootSlot ∈ graph.slots) :
    ∃ slots, graph.walk rootSlot = .ok (slots.map graph.bout) ∧ graph.Closure rootSlot slots ∧
      slots.Pairwise fun a b => ¬ graph.Feeds a b := by
  have hEnd := h.frontier_eq_nil hRoot
  have hClosure := PhaseGraph.closure_of_end hRoot hEnd
  refine ⟨_, PhaseGraph.walk_of_end hEnd, hClosure, ?_⟩
  refine (pairwise_sortWith _).imp_of_mem fun {a b} ha hb hLe => ?_
  intro hFeeds
  have hMem : ∀ slot, graph.Reaches rootSlot slot → slot ∈ graph.slots := by
    intro slot hReaches
    cases hReaches with
    | single hStep => exact hStep.1
    | tail _ hStep => exact hStep.1
  have hLt := h.round_lt (hMem a ((hClosure.mem_iff a).mp ha).1)
    (hMem b ((hClosure.mem_iff b).mp hb).1) hFeeds
  exact absurd (PhaseGraph.byRound_isLE.mp hLe) (by omega)

end Stored

section Generated

variable {ι : Type u} {graph : PhaseGraph ι}

theorem log2_le_of_size {size : ℕ} (h : size ≤ 128) : Nat.log2 size ≤ 7 := by
  by_cases hZero : size = 0
  · rw [hZero]
    decide
  · exact Nat.le_of_lt_succ ((Nat.log2_lt hZero).mpr (Nat.lt_of_le_of_lt h (by decide)))

/-- The insert a row of the graph was written with. -/
theorem exists_insert {σ : Type} {slots : List σ} {insert : σ → SlotInsert}
    (rows : (graph.slots.map SlotRow.toSlotInsert).Perm (slots.map insert)) {slot : SlotRow ι}
    (hSlot : slot ∈ graph.slots) : ∃ s ∈ slots, insert s = slot.toSlotInsert :=
  List.mem_map.mp (rows.mem_iff.mp (List.mem_map_of_mem hSlot))

section Single

variable {fighterCount : ℕ} {size : Option ℕ} {bracket : SingleElimBracket}

theorem singleElim_rounds_le (made : singleElimBracket fighterCount size = .ok bracket) :
    bracket.rounds ≤ 7 := by
  rw [singleElimBracket] at made
  split at made
  · cases made
  · split at made
    · cases made
    · split at made
      · cases made
      · rename_i hLe
        cases made
        exact log2_le_of_size (Nat.le_of_not_lt hLe)

theorem singleElim_ranked (made : singleElimBracket fighterCount size = .ok bracket) :
    Ranked SlotRef.round bracket.nodes ∧ ∀ s ∈ bracket.slots, s.round ≤ bracket.rounds := by
  have hRound : ∀ {legacy playIn : Bool} {count byeSeeds m k : ℕ},
      ∀ s ∈ singleElimSlots legacy playIn count (2 ^ (k + 1)) byeSeeds m (k + 1),
        s.round ≤ k + 1 := by
    intro legacy playIn count byeSeeds m k s hs
    rw [singleElimSlots, ← mainSlots] at hs
    rcases List.mem_append.mp hs with hs | hs
    · have hMain := mainSlots_round hs
      omega
    · rw [(mem_bronzeSlots hs).2]
      exact Nat.le_refl _
  obtain ⟨-, -, k, hRounds, ⟨-, -, hSlots⟩ | ⟨-, m, -, -, hSlots⟩⟩ := singleElimBracket_ok made
  · rw [SingleElimBracket.nodes, hSlots, hRounds]
    exact ⟨ordered_singleElimSlots.ranked, hRound⟩
  · rw [SingleElimBracket.nodes, hSlots, hRounds]
    exact ⟨ordered_singleElimSlots.ranked, hRound⟩

theorem stored_singleElim (made : singleElimBracket fighterCount size = .ok bracket)
    (phaseType : graph.phaseType = .singleElim)
    (rows : (graph.slots.map SlotRow.toSlotInsert).Perm (bracket.slots.map singleElimInsert)) :
    Stored graph SlotRef.text SlotRef.round bracket.nodes where
  text_injective := SlotRef.text_injective
  ranked := (singleElim_ranked made).1
  rank_le n hn := by
    obtain ⟨s, hs, rfl⟩ := List.mem_map.mp hn
    refine ((singleElim_ranked made).2 s hs).trans ((singleElim_rounds_le made).trans ?_)
    decide
  row slot hSlot := by
    obtain ⟨s, hs, hInsert⟩ := exists_insert rows hSlot
    refine ⟨s.node, List.mem_map_of_mem hs, ?_, ?_, ?_, ?_⟩
    · rw [PhaseGraph.selfRef, ← hInsert, buildSelfRef, if_pos phaseType]
      rfl
    · exact (congrArg SlotInsert.round hInsert).symm
    · exact (congrArg SlotInsert.source_a_ref hInsert).symm
    · exact (congrArg SlotInsert.source_b_ref hInsert).symm

end Single

section Double

variable {fighterCount : ℕ} {options : DoubleElimOptions} {bracket : DoubleElimBracket}

theorem wbRounds_le {shape : DoubleElimShape}
    (h : DoubleElim.resolveDoubleElimShape fighterCount options = .ok shape) :
    shape.wbRounds ≤ 7 := by
  rw [DoubleElim.resolveDoubleElimShape] at h
  split at h
  · cases h
  · obtain ⟨bracketSize, -, h⟩ := DoubleElim.bind_eq_ok h
    simp only at h
    split at h
    · cases h
    · rename_i hLe
      obtain ⟨-, -, h⟩ := DoubleElim.bind_eq_ok h
      obtain ⟨entrySize, -, h⟩ := DoubleElim.bind_eq_ok h
      obtain ⟨lbRounds, -, h⟩ := DoubleElim.bind_eq_ok h
      cases h
      exact log2_le_of_size (Nat.le_of_not_lt hLe)

/-- The finals are the two rounds after the losers bracket. -/
theorem round_le_of_mem {shape : DoubleElimShape} (hRounds : 1 ≤ shape.wbRounds)
    {s : DoubleElimSlot} (hs : s ∈ (DoubleElim.ofShape shape).slots) :
    s.round ≤ shape.wbRounds + shape.lbRounds + 2 := by
  obtain ⟨hWb, hLb⟩ := DoubleElim.mem_slots hRounds hs
  rw [DoubleElim.ofShape] at hs
  simp only [List.mem_append] at hs
  rcases hs with ((hs | hs) | hs) | hs
  · obtain ⟨pos, -, rfl⟩ := List.mem_map.mp hs
    exact Nat.zero_le _
  · have hSection : s.slotSection = .WB := by
      rcases List.mem_append.mp hs with hs | hs
      · obtain ⟨entry, -, rfl⟩ := List.mem_map.mp hs
        rfl
      · obtain ⟨round, -, hs⟩ := List.mem_flatMap.mp hs
        obtain ⟨pos, -, rfl⟩ := List.mem_map.mp hs
        rfl
    exact (hWb hSection).trans (by omega)
  · have hSection : s.slotSection = .LB := by
      obtain ⟨k, -, hs⟩ := List.mem_flatMap.mp hs
      obtain ⟨pos, -, rfl⟩ := List.mem_map.mp hs
      rfl
    obtain ⟨k, -, hk, hRound⟩ := hLb hSection
    omega
  · cases hTarget : shape.secondChanceTarget with
    | bronze =>
      rw [hTarget] at hs
      cases hs
    | gold =>
      rw [hTarget, DoubleElim.buildFinalsSlots] at hs
      rcases List.mem_cons.mp hs with rfl | hs
      · exact Nat.le_succ _
      · split at hs
        · rw [List.mem_singleton.mp hs]
          exact Nat.le_refl _
        · cases hs

theorem rank_selfRef {b : DoubleElimBracket} {s : DoubleElimSlot}
    (hLe : s.round ≤ b.wbRounds + b.lbRounds + 2) :
    DoubleElim.rank b.wbRounds b.lbRounds (b.selfRef s) = s.round := by
  rw [DoubleElimBracket.selfRef]
  split_ifs with hWb hLb hGf
  · rfl
  · exact Nat.add_sub_cancel' (Nat.le_of_not_le hWb)
  · exact hGf.symm
  · simp only [DoubleElim.rank]
    omega

theorem text_selfRef {b : DoubleElimBracket} {config : PhaseConfig}
    (hConfig : config = ⟨some b.wbRounds, some b.lbRounds⟩) (s : DoubleElimSlot) :
    buildSelfRef s.round s.position .doubleElim config = MatchRef.text (b.selfRef s) := by
  rw [buildSelfRef, if_neg (by decide), DoubleElimBracket.selfRef, hConfig]
  simp only [Option.getD_some]
  by_cases hWb : s.round ≤ b.wbRounds
  · rw [if_pos (Int.ofNat_le.mpr hWb), if_pos hWb]
    rfl
  rw [if_neg (by omega), if_neg hWb]
  by_cases hLb : s.round ≤ b.wbRounds + b.lbRounds
  · rw [if_pos (by omega), if_pos hLb, ← Int.ofNat_sub (Nat.le_of_not_le hWb)]
    rfl
  rw [if_neg (by omega), if_neg hLb]
  by_cases hGf : s.round = b.wbRounds + b.lbRounds + 1
  · rw [if_pos (by omega), if_pos hGf]
    rfl
  · rw [if_neg (by omega), if_neg hGf]
    rfl

theorem stored_doubleElim (made : doubleElimBracket fighterCount options = .ok bracket)
    (phaseType : graph.phaseType = .doubleElim)
    (config : graph.config = ⟨some bracket.wbRounds, some bracket.lbRounds⟩)
    (rows : (graph.slots.map SlotRow.toSlotInsert).Perm (bracket.slots.map doubleElimInsert)) :
    Stored graph MatchRef.text (DoubleElim.rank bracket.wbRounds bracket.lbRounds)
      bracket.nodes := by
  rw [doubleElimBracket] at made
  cases hShape : DoubleElim.resolveDoubleElimShape fighterCount options with
  | error message =>
    rw [hShape] at made
    cases made
  | ok shape =>
    rw [hShape] at made
    cases made
    obtain ⟨surplus, depth, hSized⟩ := DoubleElim.resolveDoubleElimShape_sized hShape
    have hRound : ∀ s ∈ (DoubleElim.ofShape shape).slots,
        s.round ≤ shape.wbRounds + shape.lbRounds + 2 :=
      fun s hs => round_le_of_mem hSized.rounds_pos hs
    refine ⟨MatchRef.text_injective, ?_, fun n hn => ?_, fun slot hSlot => ?_⟩
    · rw [hSized.nodes]
      exact hSized.ladder.ranked fighterCount surplus shape.grandFinalReset
    · obtain ⟨s, hs, rfl⟩ := List.mem_map.mp hn
      have hWb := wbRounds_le hShape
      have hLast := hSized.ladder.last_le
      have hRank : DoubleElim.rank shape.wbRounds shape.lbRounds
          ((DoubleElim.ofShape shape).selfRef s) = s.round := rank_selfRef (hRound s hs)
      have hLe := hRound s hs
      change DoubleElim.rank shape.wbRounds shape.lbRounds
        ((DoubleElim.ofShape shape).selfRef s) ≤ 32
      omega
    · obtain ⟨s, hs, hInsert⟩ := exists_insert rows hSlot
      refine ⟨_, List.mem_map_of_mem hs, ?_, ?_, ?_, ?_⟩
      · rw [PhaseGraph.selfRef, ← hInsert, phaseType]
        exact text_selfRef config s
      · rw [← congrArg SlotInsert.round hInsert]
        exact congrArg Nat.cast (rank_selfRef (hRound s hs)).symm
      · exact (congrArg SlotInsert.source_a_ref hInsert).symm
      · exact (congrArg SlotInsert.source_b_ref hInsert).symm

end Double

end Generated

/-! ## The law -/

/-- On the rows of a generated bracket the walk lists what can be reached, and no slot before
one it feeds; on any rows nothing more is found after as many hops as there are rows. -/
theorem walk_closure {ι : Type u} [DecidableEq ι] {graph : PhaseGraph ι} {rootSlot : SlotRow ι}
    (hRoot : rootSlot ∈ graph.slots) :
    (graph.Generated → ∃ slots, graph.walk rootSlot = .ok (slots.map graph.bout) ∧
      graph.Closure rootSlot slots ∧ slots.Pairwise fun a b => ¬ graph.Feeds a b) ∧
    (graph.refs.hop^[graph.slots.length] (graph.refs.start rootSlot)).frontier = [] ∧
    ((∃ message, graph.walk rootSlot = .error message) ∨
      ∃ slots, graph.walk rootSlot = .ok (slots.map graph.bout) ∧
        graph.Closure rootSlot slots) := by
  refine ⟨fun hGenerated => ?_, BreadthFirst.frontier_eq_nil hRoot (Nat.le_refl _),
    PhaseGraph.walk_cases hRoot⟩
  cases hGenerated with
  | single_elim made phaseType rows => exact (stored_singleElim made phaseType rows).walk hRoot
  | double_elim made phaseType config rows =>
    exact (stored_doubleElim made phaseType config rows).walk hRoot

/-- The rows of these inserts, numbered as they are written. -/
def storedGraph (phaseType : PhaseType) (config : PhaseConfig) (inserts : List SlotInsert) :
    PhaseGraph ℕ where
  phaseId := ""
  phaseType := phaseType
  config := config
  slots := inserts.zipIdx.map fun (insert, id) => { insert with id }
  liveMatch _ := none
  id_key := by
    have hIds : (inserts.zipIdx.map fun (insert, id) => ({ insert with id } : SlotRow ℕ)).map
        SlotRow.id = inserts.zipIdx.map Prod.snd := by
      rw [List.map_map]
      rfl
    rw [hIds, List.zipIdx_map_snd]
    exact List.nodup_range'

def fourInserts : List SlotInsert :=
  (doubleElimBracket 4 {}).toOption.elim [] fun bracket => bracket.slots.map doubleElimInsert

def fourGraph : PhaseGraph ℕ := storedGraph .doubleElim ⟨some 2, some 2⟩ fourInserts

theorem walk_closure_four : ∃ slots, fourGraph.walk ⟨⟨1, 1, some "seed 1", some "seed 4"⟩, 0⟩ =
      .ok (slots.map fourGraph.bout) ∧
    fourGraph.Closure ⟨⟨1, 1, some "seed 1", some "seed 4"⟩, 0⟩ slots ∧
    slots.Pairwise fun a b => ¬ fourGraph.Feeds a b := by
  refine (walk_closure (by decide +kernel)).1 ?_
  have hSizes : (doubleElimBracket 4 {}).toOption.map (fun b => (b.wbRounds, b.lbRounds)) =
      some (2, 2) := by
    decide +kernel
  cases made : doubleElimBracket 4 {} with
  | error message =>
    rw [made] at hSizes
    cases hSizes
  | ok bracket =>
    rw [made] at hSizes
    obtain ⟨hWb, hLb⟩ := Prod.mk.inj (Option.some.inj hSizes)
    refine .double_elim made rfl ?_ ?_
    · rw [hWb, hLb]
      rfl
    · have hInserts : fourInserts = bracket.slots.map doubleElimInsert := by
        rw [fourInserts, made]
        rfl
      rw [← hInserts, fourGraph, storedGraph, List.map_map]
      refine .of_eq ((List.map_congr_left ?_).trans (List.zipIdx_map_fst 0 fourInserts))
      exact fun _ _ => rfl

/-- The grand final, the second round of the losers bracket, the first, the winners final. -/
example : (fourGraph.walk ⟨⟨1, 1, some "seed 1", some "seed 4"⟩, 0⟩).toOption.map
    (List.map DependentBout.slotId) = some [5, 4, 3, 2] := by
  decide +kernel

end MyClash.Bracket.Dependents
