import Mathlib.Data.List.Perm.Basic
import Mathlib.Data.List.Nodup
import Mathlib.Logic.Function.Basic

/-!
# Knockout brackets

A bracket is a list of bouts whose sides are fed by a seed, by a bye, or by the winner or
the loser of another bout. A board holds the results so far. `Flow` follows the feeds that
wait for a fighter: a bout takes its sides out and puts its winner and its loser back, so
one derivation carries both the wiring (`Flow.balance`) and what holds of every play
(`Seated.run`).
-/

namespace Knockout

universe u

inductive Feed (κ : Type u) where
  | seed (n : ℕ)
  | bye
  | winnerOf (k : κ)
  | loserOf (k : κ)
  deriving DecidableEq

structure Node (κ : Type u) where
  key : κ
  home : Feed κ
  away : Feed κ
  deriving DecidableEq

structure Result where
  winner : Option ℕ
  loser : Option ℕ

variable {κ : Type u}

def Feed.isBye : Feed κ → Bool
  | .bye => true
  | _ => false

/-- The bout a side waits for. -/
def Feed.reads? : Feed κ → Option κ
  | .winnerOf k => some k
  | .loserOf k => some k
  | _ => none

def Feed.side (board : κ → Result) : Feed κ → Option ℕ
  | .seed n => some n
  | .bye => none
  | .winnerOf k => (board k).winner
  | .loserOf k => (board k).loser

@[simp] theorem Feed.isBye_seed (n : ℕ) : (Feed.seed n : Feed κ).isBye = false := rfl

@[simp] theorem Feed.isBye_bye : (Feed.bye : Feed κ).isBye = true := rfl

@[simp] theorem Feed.isBye_winnerOf (k : κ) : (Feed.winnerOf k).isBye = false := rfl

@[simp] theorem Feed.isBye_loserOf (k : κ) : (Feed.loserOf k).isBye = false := rfl

@[simp] theorem Feed.side_seed (board : κ → Result) (n : ℕ) :
    (Feed.seed n).side board = some n := rfl

@[simp] theorem Feed.side_bye (board : κ → Result) : (Feed.bye : Feed κ).side board = none := rfl

@[simp] theorem Feed.side_winnerOf (board : κ → Result) (k : κ) :
    (Feed.winnerOf k).side board = (board k).winner := rfl

@[simp] theorem Feed.side_loserOf (board : κ → Result) (k : κ) :
    (Feed.loserOf k).side board = (board k).loser := rfl

namespace Node

def sides (n : Node κ) : List (Feed κ) := [n.home, n.away]

def feeds (n : Node κ) : List (Feed κ) := n.sides.filter fun x => !x.isBye

def losers (n : Node κ) : List (Feed κ) :=
  if n.home.isBye || n.away.isBye then [] else [.loserOf n.key]

def produces (n : Node κ) : List (Feed κ) := .winnerOf n.key :: n.losers

/-- Two fighters fight it out; a lone fighter goes through against a bye and waits
otherwise. -/
def bout (homeWins : Bool) (board : κ → Result) (n : Node κ) : Result :=
  match n.home.side board, n.away.side board with
  | some h, some a => if homeWins then ⟨some h, some a⟩ else ⟨some a, some h⟩
  | some h, none => if n.away.isBye then ⟨some h, none⟩ else ⟨none, none⟩
  | none, some a => if n.home.isBye then ⟨some a, none⟩ else ⟨none, none⟩
  | none, none => ⟨none, none⟩

end Node

def noResults : κ → Result := fun _ => ⟨none, none⟩

/-- The bouts played in the order of the list. -/
def play [DecidableEq κ] (homeWins : κ → Bool) (nodes : List (Node κ)) (board : κ → Result) :
    κ → Result :=
  nodes.foldl (fun b n => Function.update b n.key (n.bout (homeWins n.key) b)) board

/-- Every bout of the board has the result of its own sides. -/
def Played (homeWins : κ → Bool) (nodes : List (Node κ)) (board : κ → Result) : Prop :=
  ∀ n ∈ nodes, board n.key = n.bout (homeWins n.key) board

def lossesIn (board : κ → Result) (nodes : List (Node κ)) (f : ℕ) : ℕ :=
  nodes.countP fun n => (board n.key).loser == some f

/-- The bouts of `nodes` turn the feeds that wait in `opn` into those of `final`. -/
inductive Flow : List (Feed κ) → List (Node κ) → List (Feed κ) → Prop
  | done {opn final : List (Feed κ)} (h : opn.Perm final) : Flow opn [] final
  | bout {opn rest final : List (Feed κ)} {n : Node κ} {nodes : List (Node κ)}
      (hFeeds : n.feeds ≠ []) (h : opn.Perm (n.feeds ++ rest))
      (next : Flow (n.produces ++ rest) nodes final) : Flow opn (n :: nodes) final

namespace Flow

theorem of_perm {opn opn' : List (Feed κ)} {nodes : List (Node κ)} {final : List (Feed κ)}
    (hPerm : opn.Perm opn') (h : Flow opn' nodes final) : Flow opn nodes final := by
  cases h with
  | done h => exact .done (hPerm.trans h)
  | bout hFeeds h next => exact .bout hFeeds (hPerm.trans h) next

theorem to_perm {opn : List (Feed κ)} {nodes : List (Node κ)} {final final' : List (Feed κ)}
    (h : Flow opn nodes final) (hPerm : final.Perm final') : Flow opn nodes final' := by
  induction h with
  | done h => exact .done (h.trans hPerm)
  | bout hFeeds h _ ih => exact .bout hFeeds h (ih hPerm)

theorem append {opn mid final : List (Feed κ)} {xs ys : List (Node κ)}
    (h : Flow opn xs mid) (h' : Flow mid ys final) : Flow opn (xs ++ ys) final := by
  induction h with
  | done h => exact h'.of_perm h
  | bout hFeeds h _ ih => exact .bout hFeeds h (ih h')

theorem frame {opn final : List (Feed κ)} {nodes : List (Node κ)} (rest : List (Feed κ))
    (h : Flow opn nodes final) : Flow (opn ++ rest) nodes (final ++ rest) := by
  induction h with
  | done h => exact .done (h.append_right rest)
  | bout hFeeds h _ ih =>
    refine .bout hFeeds ?_ (by simpa only [List.append_assoc] using ih)
    simpa only [List.append_assoc] using h.append_right rest

/-- A round whose bouts do not wait for each other. -/
theorem round {nodes : List (Node κ)} (hFeeds : ∀ n ∈ nodes, n.feeds ≠ []) :
    Flow (nodes.flatMap Node.feeds) nodes (nodes.flatMap Node.produces) := by
  induction nodes with
  | nil => exact .done .nil
  | cons n nodes ih =>
    have hRest := ih fun m hm => hFeeds m (List.mem_cons_of_mem n hm)
    refine .bout (hFeeds n List.mem_cons_self) (.refl _) ?_
    have hFramed := hRest.frame n.produces
    exact (hFramed.of_perm List.perm_append_comm).to_perm List.perm_append_comm

/-- Nothing is lost on the way: what waits at first and what the bouts put out is what the
bouts take in and what waits at last. -/
theorem balance {opn final : List (Feed κ)} {nodes : List (Node κ)}
    (h : Flow opn nodes final) :
    (opn ++ nodes.flatMap Node.produces).Perm (nodes.flatMap Node.feeds ++ final) := by
  induction h with
  | done h => simpa using h
  | @bout opn rest final n nodes _ h _ ih =>
    calc opn ++ (n :: nodes).flatMap Node.produces
        = opn ++ (n.produces ++ nodes.flatMap Node.produces) := by rw [List.flatMap_cons]
      List.Perm _ (n.feeds ++ rest ++ (n.produces ++ nodes.flatMap Node.produces)) :=
          h.append_right _
      List.Perm _ (n.feeds ++ (n.produces ++ rest ++ nodes.flatMap Node.produces)) := by
          rw [List.append_assoc]
          refine List.Perm.append_left _ ?_
          rw [← List.append_assoc]
          exact List.perm_append_comm.append_right _
      List.Perm _ (n.feeds ++ (nodes.flatMap Node.feeds ++ final)) := ih.append_left _
      _ = (n :: nodes).flatMap Node.feeds ++ final := by
          rw [List.flatMap_cons, List.append_assoc]

end Flow

/-! ## Counting the sides -/

section Count

theorem reads?_of_mem_produces {nodes : List (Node κ)} {x : Feed κ}
    (hx : x ∈ nodes.flatMap Node.produces) : ∃ n ∈ nodes, x.reads? = some n.key := by
  obtain ⟨n, hn, hx⟩ := List.mem_flatMap.mp hx
  refine ⟨n, hn, ?_⟩
  rcases List.mem_cons.mp hx with rfl | hx
  · rfl
  · rw [Node.losers] at hx
    split at hx
    · cases hx
    · rw [List.mem_singleton.mp hx]
      rfl

theorem mem_feeds_of_mem_sides {nodes : List (Node κ)} {x : Feed κ}
    (hx : x ∈ nodes.flatMap Node.sides) (hBye : x.isBye = false) :
    x ∈ nodes.flatMap Node.feeds := by
  obtain ⟨n, hn, hx⟩ := List.mem_flatMap.mp hx
  exact List.mem_flatMap.mpr ⟨n, hn, List.mem_filter.mpr ⟨hx, by simp [hBye]⟩⟩

/-- Every bout that a side waits for is in the bracket. -/
theorem Flow.reads_mem {opn final : List (Feed κ)} {nodes : List (Node κ)}
    (h : Flow opn nodes final) (hOpen : ∀ x ∈ opn, x.reads? = none) {x : Feed κ}
    (hx : x ∈ nodes.flatMap Node.sides) {k : κ} (hk : x.reads? = some k) :
    k ∈ nodes.map Node.key := by
  have hBye : x.isBye = false := by
    cases x with
    | bye => cases hk
    | seed n => rfl
    | winnerOf k => rfl
    | loserOf k => rfl
  have hMem := h.balance.mem_iff.mpr (List.mem_append_left _ (mem_feeds_of_mem_sides hx hBye))
  rcases List.mem_append.mp hMem with hMem | hMem
  · rw [hOpen x hMem] at hk
    cases hk
  · obtain ⟨n, hn, hKey⟩ := reads?_of_mem_produces hMem
    rw [hKey] at hk
    exact List.mem_map.mpr ⟨n, hn, Option.some.inj hk⟩

variable [DecidableEq κ]

theorem count_feeds (nodes : List (Node κ)) {x : Feed κ} (hBye : x.isBye = false) :
    (nodes.flatMap Node.feeds).count x = (nodes.flatMap Node.sides).count x := by
  induction nodes with
  | nil => rfl
  | cons n nodes ih =>
    rw [List.flatMap_cons, List.flatMap_cons, List.count_append, List.count_append, ih,
      Node.feeds, List.count_filter (by simp [hBye])]

theorem count_seed_produces (nodes : List (Node κ)) (n : ℕ) :
    (nodes.flatMap Node.produces).count (.seed n) = 0 := by
  refine List.count_eq_zero.mpr fun hMem => ?_
  obtain ⟨_, -, hKey⟩ := reads?_of_mem_produces hMem
  cases hKey

theorem count_winnerOf_produces (nodes : List (Node κ)) (k : κ) :
    (nodes.flatMap Node.produces).count (.winnerOf k) = (nodes.map Node.key).count k := by
  induction nodes with
  | nil => rfl
  | cons n nodes ih =>
    have hLosers : n.losers.count (.winnerOf k) = 0 := by
      rw [Node.losers]
      split <;> simp
    rw [List.flatMap_cons, List.count_append, ih, Node.produces, List.count_cons, hLosers,
      List.map_cons, List.count_cons, Nat.zero_add, Nat.add_comm]
    simp

theorem count_loserOf_produces {nodes : List (Node κ)}
    (hByes : ∀ n ∈ nodes, n.home.isBye = false ∧ n.away.isBye = false) (k : κ) :
    (nodes.flatMap Node.produces).count (.loserOf k) = (nodes.map Node.key).count k := by
  induction nodes with
  | nil => rfl
  | cons n nodes ih =>
    obtain ⟨hHome, hAway⟩ := hByes n List.mem_cons_self
    rw [List.flatMap_cons, List.count_append, ih fun m hm => hByes m (List.mem_cons_of_mem n hm),
      Node.produces, Node.losers, hHome, hAway, List.map_cons, List.count_cons (l := List.map _ _),
      Nat.add_comm]
    simp [List.count_cons]

/-- What a bracket without waste does with a feed: it stands on a side or waits to the end
as often as it was dealt or put out. -/
theorem Flow.count {opn final : List (Feed κ)} {nodes : List (Node κ)}
    (h : Flow opn nodes final) {x : Feed κ} (hBye : x.isBye = false) :
    (nodes.flatMap Node.sides).count x + final.count x =
      opn.count x + (nodes.flatMap Node.produces).count x := by
  rw [← count_feeds nodes hBye, ← List.count_append, ← List.count_append]
  exact (h.balance.count_eq x).symm

/-- A seed that does not wait to the end stands on as many sides as it was dealt. -/
theorem Flow.count_seed {opn final : List (Feed κ)} {nodes : List (Node κ)}
    (h : Flow opn nodes final) {n : ℕ} (hFinal : .seed n ∉ final) :
    (nodes.flatMap Node.sides).count (.seed n) = opn.count (.seed n) := by
  have hCount := h.count (x := .seed n) rfl
  rw [count_seed_produces, List.count_eq_zero_of_not_mem hFinal] at hCount
  omega

/-- A winner goes on to one side or waits to the end. -/
theorem Flow.count_winnerOf {opn final : List (Feed κ)} {nodes : List (Node κ)}
    (h : Flow opn nodes final) (hNodup : (nodes.map Node.key).Nodup) {k : κ}
    (hKey : k ∈ nodes.map Node.key) (hOpen : .winnerOf k ∉ opn) :
    (nodes.flatMap Node.sides).count (.winnerOf k) =
      if .winnerOf k ∈ final then 0 else 1 := by
  have hCount := h.count (x := .winnerOf k) rfl
  rw [count_winnerOf_produces, List.count_eq_zero_of_not_mem hOpen,
    List.count_eq_one_of_mem hNodup hKey] at hCount
  split
  · rename_i hFinal
    have hPos := List.count_pos_iff.mpr hFinal
    omega
  · rename_i hFinal
    rw [List.count_eq_zero_of_not_mem hFinal] at hCount
    omega

theorem Flow.count_loserOf {opn final : List (Feed κ)} {nodes : List (Node κ)}
    (h : Flow opn nodes final) (hNodup : (nodes.map Node.key).Nodup)
    (hByes : ∀ n ∈ nodes, n.home.isBye = false ∧ n.away.isBye = false) {k : κ}
    (hKey : k ∈ nodes.map Node.key) (hOpen : .loserOf k ∉ opn) :
    (nodes.flatMap Node.sides).count (.loserOf k) = if .loserOf k ∈ final then 0 else 1 := by
  have hCount := h.count (x := .loserOf k) rfl
  rw [count_loserOf_produces hByes, List.count_eq_zero_of_not_mem hOpen,
    List.count_eq_one_of_mem hNodup hKey] at hCount
  split
  · rename_i hFinal
    have hPos := List.count_pos_iff.mpr hFinal
    omega
  · rename_i hFinal
    rw [List.count_eq_zero_of_not_mem hFinal] at hCount
    omega

end Count

/-! ## Brackets whose losers do not come back -/

theorem produces_perm (nodes : List (Node κ)) :
    (nodes.flatMap Node.produces).Perm
      ((nodes.map fun n => .winnerOf n.key) ++ nodes.flatMap Node.losers) := by
  induction nodes with
  | nil => exact .nil
  | cons n nodes ih =>
    rw [List.flatMap_cons, List.flatMap_cons, List.map_cons, Node.produces, List.cons_append,
      List.cons_append]
    refine .cons _ ((ih.append_left _).trans ?_)
    rw [← List.append_assoc, ← List.append_assoc]
    exact List.perm_append_comm.append_right _

theorem eq_of_mem_losers {nodes : List (Node κ)} {x : Feed κ}
    (hx : x ∈ nodes.flatMap Node.losers) : ∃ n ∈ nodes, x = .loserOf n.key := by
  obtain ⟨n, hn, hx⟩ := List.mem_flatMap.mp hx
  rw [Node.losers] at hx
  split at hx
  · cases hx
  · exact ⟨n, hn, List.mem_singleton.mp hx⟩

theorem eq_of_winnerOf_mem {nodes : List (Node κ)} {k k' : κ}
    (h : .winnerOf k ∈ [.winnerOf k'] ++ nodes.flatMap Node.losers) : k = k' := by
  rcases List.mem_append.mp h with hMem | hMem
  · cases List.mem_singleton.mp hMem
    rfl
  · obtain ⟨_, -, hEq⟩ := eq_of_mem_losers hMem
    cases hEq

/-- `nodes` take the fighters of `opn` to `next` and put their losers out. -/
def Advances (opn : List (Feed κ)) (nodes : List (Node κ)) (next : List (Feed κ)) : Prop :=
  Flow opn nodes (next ++ nodes.flatMap Node.losers)

namespace Advances

theorem nil (opn : List (Feed κ)) : Advances opn [] opn :=
  .done (.of_eq (List.append_nil opn).symm)

theorem of_perm {opn opn' next next' : List (Feed κ)} {nodes : List (Node κ)}
    (hOpen : opn.Perm opn') (h : Advances opn' nodes next') (hNext : next'.Perm next) :
    Advances opn nodes next :=
  (Flow.of_perm hOpen h).to_perm (hNext.append_right _)

theorem append {opn mid next : List (Feed κ)} {xs ys : List (Node κ)}
    (h : Advances opn xs mid) (h' : Advances mid ys next) : Advances opn (xs ++ ys) next := by
  refine (Flow.append h (Flow.frame (xs.flatMap Node.losers) h')).to_perm ?_
  rw [List.flatMap_append, List.append_assoc]
  exact List.perm_append_comm.append_left _

theorem frame {opn next : List (Feed κ)} {nodes : List (Node κ)} (rest : List (Feed κ))
    (h : Advances opn nodes next) : Advances (opn ++ rest) nodes (next ++ rest) := by
  refine (Flow.frame rest h).to_perm ?_
  rw [List.append_assoc, List.append_assoc]
  exact List.perm_append_comm.append_left _

theorem round {opn : List (Feed κ)} {nodes : List (Node κ)} (hFeeds : ∀ n ∈ nodes, n.feeds ≠ [])
    (hOpen : opn.Perm (nodes.flatMap Node.feeds)) :
    Advances opn nodes (nodes.map fun n => .winnerOf n.key) :=
  (Flow.of_perm hOpen (Flow.round hFeeds)).to_perm (produces_perm nodes)

/-- A round given by its positions, none of whose sides is a bye. -/
theorem of_positions {ι : Type*} {opn : List (Feed κ)} (positions : List ι) (key : ι → κ)
    (home away : ι → Feed κ) (hHome : ∀ pos, (home pos).isBye = false)
    (hAway : ∀ pos, (away pos).isBye = false)
    (hOpen : opn.Perm (positions.flatMap fun pos => [home pos, away pos])) :
    Advances opn (positions.map fun pos => ⟨key pos, home pos, away pos⟩)
      (positions.map fun pos => .winnerOf (key pos)) := by
  have hFeeds : ∀ pos, Node.feeds ⟨key pos, home pos, away pos⟩ = [home pos, away pos] :=
    fun pos => by simp [Node.feeds, Node.sides, hHome, hAway]
  refine (round ?_ ?_).of_perm (.refl _) (.of_eq ?_)
  · intro n hn
    obtain ⟨pos, -, rfl⟩ := List.mem_map.mp hn
    simp [hFeeds]
  · simpa [List.flatMap_map, hFeeds] using hOpen
  · rw [List.map_map]
    rfl

/-- Without byes every bout puts one fighter out. -/
theorem length_eq {opn next : List (Feed κ)} {nodes : List (Node κ)}
    (h : Advances opn nodes next)
    (hByes : ∀ n ∈ nodes, n.home.isBye = false ∧ n.away.isBye = false) :
    opn.length = next.length + nodes.length := by
  have hLength : ∀ (f : Node κ → List (Feed κ)) (m : ℕ), (∀ n ∈ nodes, (f n).length = m) →
      (nodes.flatMap f).length = nodes.length * m := by
    intro f m hf
    rw [List.length_flatMap, List.map_congr_left hf, List.map_const', List.sum_replicate_nat]
  have hBalance := (Flow.balance h).length_eq
  rw [List.length_append, List.length_append, List.length_append,
    hLength Node.produces 2, hLength Node.feeds 2, hLength Node.losers 1] at hBalance
  · omega
  all_goals
    intro n hn
    obtain ⟨hHome, hAway⟩ := hByes n hn
    simp [Node.produces, Node.losers, Node.feeds, Node.sides, hHome, hAway]

end Advances

theorem flatMap_losers {nodes : List (Node κ)}
    (hByes : ∀ n ∈ nodes, n.home.isBye = false ∧ n.away.isBye = false) :
    nodes.flatMap Node.losers = (nodes.map Node.key).map Feed.loserOf := by
  induction nodes with
  | nil => rfl
  | cons n nodes ih =>
    obtain ⟨hHome, hAway⟩ := hByes n List.mem_cons_self
    rw [List.flatMap_cons, ih fun m hm => hByes m (List.mem_cons_of_mem n hm), Node.losers, hHome,
      hAway]
    rfl

/-! ## Renaming the bouts -/

section Rename

universe v

variable {κ' : Type v} (f : κ → κ')

def Feed.map : Feed κ → Feed κ'
  | .seed n => .seed n
  | .bye => .bye
  | .winnerOf k => .winnerOf (f k)
  | .loserOf k => .loserOf (f k)

def Node.map (n : Node κ) : Node κ' := ⟨f n.key, n.home.map f, n.away.map f⟩

@[simp] theorem Feed.isBye_map (x : Feed κ) : (x.map f).isBye = x.isBye := by
  cases x <;> rfl

theorem Node.feeds_map (n : Node κ) : (n.map f).feeds = n.feeds.map (Feed.map f) := by
  change (n.sides.map (Feed.map f)).filter (fun x => !x.isBye) = _
  rw [List.filter_map, Node.feeds]
  simp only [Function.comp_def, Feed.isBye_map]

theorem Node.losers_map (n : Node κ) : (n.map f).losers = n.losers.map (Feed.map f) := by
  rw [Node.losers, Node.losers, Node.map, Feed.isBye_map, Feed.isBye_map]
  split <;> rfl

theorem Node.produces_map (n : Node κ) : (n.map f).produces = n.produces.map (Feed.map f) := by
  rw [Node.produces, Node.produces, List.map_cons, ← Node.losers_map]
  rfl

theorem Flow.map {opn final : List (Feed κ)} {nodes : List (Node κ)} (h : Flow opn nodes final) :
    Flow (opn.map (Feed.map f)) (nodes.map (Node.map f)) (final.map (Feed.map f)) := by
  induction h with
  | done h => exact .done (h.map _)
  | @bout opn rest final n nodes hFeeds h _ ih =>
    rw [List.map_append, ← Node.produces_map] at ih
    refine .bout ?_ ?_ ih
    · rw [Node.feeds_map]
      exact fun hNil => hFeeds (List.map_eq_nil_iff.mp hNil)
    · rw [Node.feeds_map, ← List.map_append]
      exact h.map _

theorem Advances.map {opn next : List (Feed κ)} {nodes : List (Node κ)}
    (h : Advances opn nodes next) :
    Advances (opn.map (Feed.map f)) (nodes.map (Node.map f)) (next.map (Feed.map f)) := by
  have hLosers : (nodes.map (Node.map f)).flatMap Node.losers =
      (nodes.flatMap Node.losers).map (Feed.map f) := by
    rw [List.flatMap_map, List.map_flatMap]
    exact List.flatMap_congr fun n _ => Node.losers_map f n
  rw [Advances, hLosers, ← List.map_append]
  exact Flow.map f h

end Rename

/-! ## Playing in an order that reads only earlier bouts -/

section Play

variable [DecidableEq κ]

theorem play_cons (homeWins : κ → Bool) (n : Node κ) (nodes : List (Node κ))
    (board : κ → Result) :
    play homeWins (n :: nodes) board =
      play homeWins nodes (Function.update board n.key (n.bout (homeWins n.key) board)) := rfl

theorem play_of_not_mem (homeWins : κ → Bool) {nodes : List (Node κ)} {k : κ}
    (hKey : k ∉ nodes.map Node.key) (board : κ → Result) :
    play homeWins nodes board k = board k := by
  induction nodes generalizing board with
  | nil => rfl
  | cons n nodes ih =>
    rw [List.map_cons, List.mem_cons, not_or] at hKey
    rw [play_cons, ih hKey.2, Function.update_of_ne hKey.1]

end Play

theorem Feed.side_congr {board board' : κ → Result} {x : Feed κ}
    (h : ∀ k, x.reads? = some k → board k = board' k) : x.side board = x.side board' := by
  cases x with
  | seed n => rfl
  | bye => rfl
  | winnerOf k => exact congrArg Result.winner (h k rfl)
  | loserOf k => exact congrArg Result.loser (h k rfl)

theorem Node.bout_congr (homeWins : Bool) {board board' : κ → Result} {n : Node κ}
    (hHome : n.home.side board = n.home.side board')
    (hAway : n.away.side board = n.away.side board') :
    n.bout homeWins board = n.bout homeWins board' := by
  rw [Node.bout, Node.bout, hHome, hAway]

/-- Bouts in the order of a rank that every feed goes down: each is played once the bouts
it waits for have been. -/
structure Ranked (rank : κ → ℕ) (nodes : List (Node κ)) : Prop where
  nodup : (nodes.map Node.key).Nodup
  sorted : nodes.Pairwise fun a b => rank a.key ≤ rank b.key
  home_lt : ∀ n ∈ nodes, ∀ k, n.home.reads? = some k → rank k < rank n.key
  away_lt : ∀ n ∈ nodes, ∀ k, n.away.reads? = some k → rank k < rank n.key

theorem Ranked.tail {rank : κ → ℕ} {n : Node κ} {nodes : List (Node κ)}
    (h : Ranked rank (n :: nodes)) : Ranked rank nodes where
  nodup := (List.nodup_cons.mp h.nodup).2
  sorted := (List.pairwise_cons.mp h.sorted).2
  home_lt m hm := h.home_lt m (List.mem_cons_of_mem n hm)
  away_lt m hm := h.away_lt m (List.mem_cons_of_mem n hm)

theorem Ranked.nil (rank : κ → ℕ) : Ranked rank [] where
  nodup := List.nodup_nil
  sorted := List.Pairwise.nil
  home_lt _ h := by cases h
  away_lt _ h := by cases h

theorem Ranked.append {rank : κ → ℕ} {xs ys : List (Node κ)} (hx : Ranked rank xs)
    (hy : Ranked rank ys) (hLt : ∀ x ∈ xs, ∀ y ∈ ys, rank x.key < rank y.key) :
    Ranked rank (xs ++ ys) where
  nodup := by
    rw [List.map_append]
    refine List.nodup_append.mpr ⟨hx.nodup, hy.nodup, fun k hk k' hk' => ?_⟩
    obtain ⟨x, hx, rfl⟩ := List.mem_map.mp hk
    obtain ⟨y, hy, rfl⟩ := List.mem_map.mp hk'
    exact fun hEq => Nat.ne_of_lt (hLt x hx y hy) (congrArg rank hEq)
  sorted := List.pairwise_append.mpr
    ⟨hx.sorted, hy.sorted, fun x hx y hy => Nat.le_of_lt (hLt x hx y hy)⟩
  home_lt n hn := (List.mem_append.mp hn).elim (hx.home_lt n) (hy.home_lt n)
  away_lt n hn := (List.mem_append.mp hn).elim (hx.away_lt n) (hy.away_lt n)

theorem Feed.reads?_map {κ' : Type*} (f : κ → κ') (x : Feed κ) :
    (x.map f).reads? = x.reads?.map f := by
  cases x <;> rfl

theorem Ranked.map {κ' : Type*} {rank : κ → ℕ} {rank' : κ' → ℕ} {f : κ → κ'}
    (hf : Function.Injective f) (hRank : ∀ k, rank' (f k) = rank k) {nodes : List (Node κ)}
    (h : Ranked rank nodes) : Ranked rank' (nodes.map (Node.map f)) where
  nodup := by
    have hKeys : (nodes.map (Node.map f)).map Node.key = (nodes.map Node.key).map f := by
      rw [List.map_map, List.map_map]
      rfl
    rw [hKeys]
    exact h.nodup.map hf
  sorted := List.pairwise_map.mpr (h.sorted.imp fun hLe => by
    rwa [Node.map, Node.map, hRank, hRank])
  home_lt n hn k hk := by
    obtain ⟨node, hNode, rfl⟩ := List.mem_map.mp hn
    rw [Node.map, Feed.reads?_map, Option.map_eq_some_iff] at hk
    obtain ⟨k, hk, rfl⟩ := hk
    rw [hRank, Node.map, hRank]
    exact h.home_lt node hNode k hk
  away_lt n hn k hk := by
    obtain ⟨node, hNode, rfl⟩ := List.mem_map.mp hn
    rw [Node.map, Feed.reads?_map, Option.map_eq_some_iff] at hk
    obtain ⟨k, hk, rfl⟩ := hk
    rw [hRank, Node.map, hRank]
    exact h.away_lt node hNode k hk

theorem Ranked.played [DecidableEq κ] {rank : κ → ℕ} {nodes : List (Node κ)}
    (h : Ranked rank nodes) (homeWins : κ → Bool) (board : κ → Result) :
    Played homeWins nodes (play homeWins nodes board) := by
  induction nodes generalizing board with
  | nil => intro n hn; cases hn
  | cons n nodes ih =>
    intro m hm
    rw [play_cons]
    rcases List.mem_cons.mp hm with rfl | hm
    · -- nothing played later is below the rank of this bout, so its sides stay
      have hStays : ∀ k, rank k < rank m.key →
          play homeWins nodes (Function.update board m.key (m.bout (homeWins m.key) board)) k =
            board k := by
        intro k hk
        have hLater : k ∉ nodes.map Node.key := by
          intro hMem
          obtain ⟨l, hl, rfl⟩ := List.mem_map.mp hMem
          exact Nat.not_le_of_lt hk ((List.pairwise_cons.mp h.sorted).1 l hl)
        rw [play_of_not_mem homeWins hLater, Function.update_of_ne]
        rintro rfl
        exact Nat.lt_irrefl _ hk
      rw [play_of_not_mem homeWins (List.nodup_cons.mp h.nodup).1, Function.update_self]
      refine Node.bout_congr _ (Feed.side_congr fun k hk => ?_) (Feed.side_congr fun k hk => ?_)
      · exact (hStays k (h.home_lt m List.mem_cons_self k hk)).symm
      · exact (hStays k (h.away_lt m List.mem_cons_self k hk)).symm
    · exact ih h.tail _ m hm

/-! ## The fighters on the feeds that wait -/

/-- The feed a bout's winner came in on. -/
def Node.winnerFeed (homeWins : Bool) (n : Node κ) : Feed κ :=
  if n.home.isBye then n.away else if n.away.isBye || homeWins then n.home else n.away

def Node.loserFeed (homeWins : Bool) (n : Node κ) : Feed κ :=
  if homeWins then n.away else n.home

/-- A bout takes whoever may sit on its feeds to whoever may sit on its winner and on its
loser; `Allowed x ks` says that a fighter who has lost the bouts `ks` may sit on `x`. -/
structure Fair (Allowed : Feed κ → List κ → Prop) (homeWins : Bool) (n : Node κ) : Prop where
  wins : ∀ ks, Allowed (n.winnerFeed homeWins) ks → Allowed (.winnerOf n.key) ks
  loses : ∀ ks, Allowed (n.loserFeed homeWins) ks → Allowed (.loserOf n.key) (ks ++ [n.key])

/-- The bouts of `nodes` that `f` lost, in order. -/
def lostAt (board : κ → Result) (nodes : List (Node κ)) (f : ℕ) : List κ :=
  (nodes.filter fun n => (board n.key).loser == some f).map Node.key

theorem length_lostAt (board : κ → Result) (nodes : List (Node κ)) (f : ℕ) :
    (lostAt board nodes f).length = lossesIn board nodes f := by
  rw [lostAt, List.length_map, lossesIn, List.countP_eq_length_filter]

theorem lostAt_cons (board : κ → Result) (n : Node κ) (nodes : List (Node κ)) (f : ℕ) :
    lostAt board (n :: nodes) f =
      (if (board n.key).loser == some f then [n.key] else []) ++ lostAt board nodes f := by
  rw [lostAt, List.filter_cons]
  split <;> rfl

theorem mem_lostAt {board : κ → Result} {nodes : List (Node κ)} {f : ℕ} {k : κ} :
    k ∈ lostAt board nodes f ↔ k ∈ nodes.map Node.key ∧ (board k).loser = some f := by
  rw [lostAt, List.mem_map, List.mem_map]
  constructor
  · rintro ⟨n, hn, rfl⟩
    obtain ⟨hn, hLoser⟩ := List.mem_filter.mp hn
    exact ⟨⟨n, hn, rfl⟩, beq_iff_eq.mp hLoser⟩
  · rintro ⟨⟨n, hn, rfl⟩, hLoser⟩
    exact ⟨n, List.mem_filter.mpr ⟨hn, beq_iff_eq.mpr hLoser⟩, rfl⟩

/-- The fighters sit one on each feed that waits, having lost what this feed allows. -/
structure Seated (Allowed : Feed κ → List κ → Prop) (board : κ → Result) (fighters : List ℕ)
    (lost : ℕ → List κ) (opn : List (Feed κ)) : Prop where
  seats : (opn.map (Feed.side board)).Perm (fighters.map some)
  allowed : ∀ x ∈ opn, ∀ f, x.side board = some f → Allowed x (lost f)

theorem Feed.side_of_isBye {board : κ → Result} {x : Feed κ} (h : x.isBye) :
    x.side board = none := by
  cases x with
  | bye => rfl
  | seed n => cases h
  | winnerOf k => cases h
  | loserOf k => cases h

namespace Node

variable {board : κ → Result} {n : Node κ}

theorem bout_two (homeWins : Bool) {h a : ℕ} (hHome : n.home.side board = some h)
    (hAway : n.away.side board = some a) :
    n.bout homeWins board = if homeWins then ⟨some h, some a⟩ else ⟨some a, some h⟩ := by
  rw [bout, hHome, hAway]

/-- A bout with a loser has a winner. -/
theorem bout_of_loser {homeWins : Bool} {f : ℕ} (h : (n.bout homeWins board).loser = some f) :
    ∃ w, n.bout homeWins board = ⟨some w, some f⟩ := by
  rw [bout] at h ⊢
  split at h
  · cases homeWins <;> cases h <;> exact ⟨_, rfl⟩
  · split at h <;> cases h
  · split at h <;> cases h
  · cases h

theorem bout_loser_of_bye (homeWins : Bool) (hBye : n.home.isBye || n.away.isBye) :
    (n.bout homeWins board).loser = none := by
  rcases Bool.or_eq_true_iff.mp hBye with hHome | hAway
  · rw [bout, Feed.side_of_isBye hHome]
    cases n.away.side board <;> simp [hHome]
  · rw [bout, Feed.side_of_isBye hAway]
    cases n.home.side board <;> simp [hAway]

theorem noBye_of_loser {homeWins : Bool} {f : ℕ} (hBoard : board n.key = n.bout homeWins board)
    (hLoser : (board n.key).loser = some f) : n.home.isBye = false ∧ n.away.isBye = false := by
  rw [← Bool.or_eq_false_iff]
  cases hBye : n.home.isBye || n.away.isBye with
  | false => rfl
  | true =>
    rw [hBoard, bout_loser_of_bye homeWins hBye] at hLoser
    cases hLoser

theorem loserOf_mem_produces {homeWins : Bool} {f : ℕ}
    (hBoard : board n.key = n.bout homeWins board) (hLoser : (board n.key).loser = some f) :
    .loserOf n.key ∈ n.produces := by
  obtain ⟨hHome, hAway⟩ := noBye_of_loser hBoard hLoser
  simp [produces, losers, hHome, hAway]

/-- A bout gives back the fighters it took. -/
theorem produces_perm {homeWins : Bool} (hBoard : board n.key = n.bout homeWins board)
    (hFeeds : n.feeds ≠ []) (hFilled : ∀ x ∈ n.feeds, (x.side board).isSome) :
    (n.produces.map (Feed.side board)).Perm (n.feeds.map (Feed.side board)) := by
  cases hHome : n.home.isBye with
  | false =>
    obtain ⟨h, hh⟩ := Option.isSome_iff_exists.mp (hFilled n.home (by simp [feeds, sides, hHome]))
    cases hAway : n.away.isBye with
    | false =>
      obtain ⟨a, ha⟩ := Option.isSome_iff_exists.mp (hFilled n.away (by simp [feeds, sides, hAway]))
      have hBout := hBoard.trans (bout_two homeWins hh ha)
      cases homeWins
      · simpa [produces, losers, feeds, sides, hHome, hAway, hh, ha, hBout] using
          List.Perm.swap (some h) (some a) []
      · simp [produces, losers, feeds, sides, hHome, hAway, hh, ha, hBout]
    | true =>
      have hBout : n.bout homeWins board = ⟨some h, none⟩ := by
        simp [bout, hh, Feed.side_of_isBye hAway, hAway]
      simp [produces, losers, feeds, sides, hHome, hAway, hBoard, hBout, hh]
  | true =>
    cases hAway : n.away.isBye with
    | false =>
      obtain ⟨a, ha⟩ := Option.isSome_iff_exists.mp (hFilled n.away (by simp [feeds, sides, hAway]))
      have hBout : n.bout homeWins board = ⟨some a, none⟩ := by
        simp [bout, ha, Feed.side_of_isBye hHome, hHome]
      simp [produces, losers, feeds, sides, hHome, hAway, hBoard, hBout, ha]
    | true => exact absurd (by simp [feeds, sides, hHome, hAway]) hFeeds

theorem winner_eq {homeWins : Bool} (hBoard : board n.key = n.bout homeWins board)
    (hFeeds : n.feeds ≠ []) (hFilled : ∀ x ∈ n.feeds, (x.side board).isSome) :
    n.winnerFeed homeWins ∈ n.feeds ∧
      (board n.key).winner = (n.winnerFeed homeWins).side board := by
  cases hHome : n.home.isBye with
  | false =>
    have hMem : n.home ∈ n.feeds := by simp [feeds, sides, hHome]
    obtain ⟨h, hh⟩ := Option.isSome_iff_exists.mp (hFilled n.home hMem)
    cases hAway : n.away.isBye with
    | false =>
      have hMem' : n.away ∈ n.feeds := by simp [feeds, sides, hAway]
      obtain ⟨a, ha⟩ := Option.isSome_iff_exists.mp (hFilled n.away hMem')
      rw [hBoard, bout_two homeWins hh ha]
      cases homeWins <;> simp [winnerFeed, hHome, hAway, hMem, hMem', hh, ha]
    | true =>
      simp [winnerFeed, hHome, hAway, hMem, hBoard, bout, hh, Feed.side_of_isBye hAway]
  | true =>
    cases hAway : n.away.isBye with
    | false =>
      have hMem : n.away ∈ n.feeds := by simp [feeds, sides, hAway]
      obtain ⟨a, ha⟩ := Option.isSome_iff_exists.mp (hFilled n.away hMem)
      simp [winnerFeed, hHome, hMem, hBoard, bout, ha, Feed.side_of_isBye hHome]
    | true => exact absurd (by simp [feeds, sides, hHome, hAway]) hFeeds

theorem loser_eq {homeWins : Bool} {f : ℕ} (hBoard : board n.key = n.bout homeWins board)
    (hFilled : ∀ x ∈ n.feeds, (x.side board).isSome) (hLoser : (board n.key).loser = some f) :
    n.loserFeed homeWins ∈ n.feeds ∧ (n.loserFeed homeWins).side board = some f := by
  obtain ⟨hHome, hAway⟩ := noBye_of_loser hBoard hLoser
  have hMem : n.home ∈ n.feeds := by simp [feeds, sides, hHome]
  have hMem' : n.away ∈ n.feeds := by simp [feeds, sides, hAway]
  obtain ⟨h, hh⟩ := Option.isSome_iff_exists.mp (hFilled n.home hMem)
  obtain ⟨a, ha⟩ := Option.isSome_iff_exists.mp (hFilled n.away hMem')
  rw [hBoard, bout_two homeWins hh ha] at hLoser
  cases homeWins
  · exact ⟨hMem, hh.trans hLoser⟩
  · exact ⟨hMem', ha.trans hLoser⟩

end Node

namespace Seated

variable {Allowed : Feed κ → List κ → Prop} {board : κ → Result} {fighters : List ℕ}
  {lost : ℕ → List κ} {opn rest : List (Feed κ)} {n : Node κ}

theorem fighter (h : Seated Allowed board fighters lost opn) {x : Feed κ} (hx : x ∈ opn) :
    ∃ f ∈ fighters, x.side board = some f := by
  obtain ⟨f, hMem, hf⟩ := List.mem_map.mp (h.seats.mem_iff.mp (List.mem_map_of_mem hx))
  exact ⟨f, hMem, hf.symm⟩

theorem isSome (h : Seated Allowed board fighters lost opn) {x : Feed κ} (hx : x ∈ opn) :
    (x.side board).isSome := by
  obtain ⟨f, -, hf⟩ := h.fighter hx
  rw [hf]
  rfl

/-- The fighters of distinct feeds are distinct. -/
theorem eq_of_side (h : (opn.map (Feed.side board)).Perm (fighters.map some))
    (hNodup : fighters.Nodup) {x y : Feed κ} (hx : x ∈ opn) (hy : y ∈ opn)
    (hSide : x.side board = y.side board) : x = y := by
  have hMap : (opn.map (Feed.side board)).Nodup :=
    h.nodup_iff.mpr (hNodup.map fun _ _ => Option.some.inj)
  exact List.inj_on_of_nodup_map hMap hx hy hSide

theorem of_perm {opn' : List (Feed κ)} (h : Seated Allowed board fighters lost opn)
    (hPerm : opn.Perm opn') : Seated Allowed board fighters lost opn' where
  seats := (hPerm.symm.map _).trans h.seats
  allowed x hx := h.allowed x (hPerm.mem_iff.mpr hx)

theorem step {homeWins : Bool} (hNodup : fighters.Nodup)
    (h : Seated Allowed board fighters lost (n.feeds ++ rest)) (hFeeds : n.feeds ≠ [])
    (hFair : Fair Allowed homeWins n) (hBoard : board n.key = n.bout homeWins board) :
    Seated Allowed board fighters
      (fun f => lost f ++ if (board n.key).loser == some f then [n.key] else [])
      (n.produces ++ rest) := by
  have hFilled : ∀ x ∈ n.feeds, (x.side board).isSome :=
    fun x hx => h.isSome (List.mem_append_left _ hx)
  have hKept := Node.produces_perm hBoard hFeeds hFilled
  have hSeats : ((n.produces ++ rest).map (Feed.side board)).Perm (fighters.map some) := by
    rw [List.map_append]
    have hBefore := h.seats
    rw [List.map_append] at hBefore
    exact (hKept.append_right _).trans hBefore
  refine ⟨hSeats, fun x hx f hf => ?_⟩
  by_cases hLost : (board n.key).loser = some f
  · -- the loser sits nowhere else than on the bout they lost
    have hEq : x = .loserOf n.key := eq_of_side hSeats hNodup hx
      (List.mem_append_left _ (Node.loserOf_mem_produces hBoard hLost)) (hf.trans hLost.symm)
    obtain ⟨hMem, hSide⟩ := Node.loser_eq hBoard hFilled hLost
    rw [hEq, hLost, if_pos (beq_self_eq_true _)]
    exact hFair.loses _ (h.allowed _ (List.mem_append_left _ hMem) f hSide)
  · rw [if_neg (by rwa [beq_iff_eq]), List.append_nil]
    rcases List.mem_append.mp hx with hx | hx
    · rcases List.mem_cons.mp hx with rfl | hx
      · obtain ⟨hMem, hWinner⟩ := Node.winner_eq hBoard hFeeds hFilled
        exact hFair.wins _ (h.allowed _ (List.mem_append_left _ hMem) f (hWinner.symm.trans hf))
      · rw [Node.losers] at hx
        split at hx
        · cases hx
        · rw [List.mem_singleton.mp hx] at hf
          exact absurd hf hLost
    · exact h.allowed x (List.mem_append_right _ hx) f hf

/-- A whole bracket: no side is left waiting, and the fighters end on the final feeds with
losses these allow. -/
theorem run {homeWins : κ → Bool} {nodes : List (Node κ)} {final : List (Feed κ)}
    (hNodup : fighters.Nodup) (hFlow : Flow opn nodes final)
    (hFair : ∀ n ∈ nodes, Fair Allowed (homeWins n.key) n) (hPlayed : Played homeWins nodes board)
    (h : Seated Allowed board fighters lost opn) :
    Seated Allowed board fighters (fun f => lost f ++ lostAt board nodes f) final ∧
      ∀ n ∈ nodes, ∀ x ∈ n.feeds, ∃ f ∈ fighters, x.side board = some f := by
  induction hFlow generalizing lost with
  | done hPerm => exact ⟨by simpa [lostAt] using h.of_perm hPerm, by simp⟩
  | @bout opn rest final n nodes hFeeds hPerm _ ih =>
    have hHere := h.of_perm hPerm
    have hNext := step hNodup hHere hFeeds (hFair n List.mem_cons_self)
      (hPlayed n List.mem_cons_self)
    obtain ⟨hFinal, hFilled⟩ := ih (fun m hm => hFair m (List.mem_cons_of_mem n hm))
      (fun m hm => hPlayed m (List.mem_cons_of_mem n hm)) hNext
    constructor
    · simpa only [List.append_assoc, ← lostAt_cons] using hFinal
    · intro m hm x hx
      rcases List.mem_cons.mp hm with rfl | hm
      · exact hHere.fighter (List.mem_append_left _ hx)
      · exact hFilled m hm x hx

end Seated

end Knockout
