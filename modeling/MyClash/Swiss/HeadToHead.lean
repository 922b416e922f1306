import MyClash.Library.SortedBlocks
import MyClash.Standings.Ranking
import MyClash.Swiss.Tiebreaks

/-!
# Head-to-head inside a tied block

Who beat whom among the fighters still level is known once the keys above have ranked them. The
standings are ranked up to the key, cut into blocks, and ranked again with the nets filled in.
-/

namespace MyClash.Swiss

open Standings StableSort

universe u v

variable {ι : Type u} {τ : Type v}

section Blocks

variable [DecidableEq ι]

def resolveBlock (records : List (SwissResultRecord ι)) (resolved : OrderedMap ι ℤ)
    (block : List ι) : OrderedMap ι ℤ :=
  if block.length < 2 then resolved else resolved.merge (headToHeadWithin block records)

/-- The nets of every block of two or more. -/
def resolveBlocks (records : List (SwissResultRecord ι)) (blocks : List (List ι)) :
    OrderedMap ι ℤ :=
  blocks.foldl (resolveBlock records) OrderedMap.empty

end Blocks

section Ranking

variable [LinearOrder ι] [LinearOrder τ]

/-- A row with a value for the head-to-head key. -/
def withHeadToHead (row : StandingsRow ι τ) (net : ℚ) : StandingsRow ι τ :=
  { row with stats := Function.update row.stats "headToHead" (some net) }

/-- `decorate`: the keys only the Swiss standings have. Head-to-head starts at 0. -/
def decorate (records : List (SwissResultRecord ι)) (byeCount : ι → ℕ) (row : StandingsRow ι τ) :
    StandingsRow ι τ :=
  let byId := OrderedMap.ofList (records.map fun r => (r.registrationId, r.swissPts))
  let keys := (opponentTiebreaks records).get? row.registrationId
  { row with
    stats := fun key =>
      if key = "swissPts" then some ((byId.get? row.registrationId).getD 0)
      else if key = "buchholz" then some ((keys.map (·.buchholz)).getD 0)
      else if key = "buchholzCut1" then some ((keys.map (·.buchholzCut1)).getD 0)
      else if key = "sonnebornBerger" then some ((keys.map (·.sonnebornBerger)).getD 0)
      else if key = "opponentWinPct" then some ((keys.map (·.opponentWinPct)).getD 0)
      else if key = "byes" then some (byeCount row.registrationId)
      else if key = "headToHead" then some 0
      else row.stats key }

omit [LinearOrder τ] in
theorem decorate_headToHead (records : List (SwissResultRecord ι)) (byeCount : ι → ℕ)
    (row : StandingsRow ι τ) : (decorate records byeCount row).stat "headToHead" = 0 := by
  simp [decorate, StandingsRow.stat]

/-- The blocks of a ranking: a row that no key put below the one above stays in its block. -/
def tiedBlocks (upTo : List (StandingsRow ι τ)) : List (List ι) :=
  (SortedBlocks.cut (·.decidingTiebreak.isNone) upTo).map (·.map (·.registrationId))

def rankWithHeadToHead (rows : List (StandingsRow ι τ)) (chain : List RankingRule)
    (records : List (SwissResultRecord ι)) : List (StandingsRow ι τ) :=
  let first := applyRanking rows chain
  match chain.findIdx? (·.key = "headToHead") with
  | none => first
  | some index =>
    let upTo := applyRanking rows (chain.take index)
    let resolved := resolveBlocks records (tiedBlocks upTo)
    if resolved.entries.length = 0 then first
    else
      applyRanking
        (rows.map fun row => withHeadToHead row ((resolved.get? row.registrationId).getD 0)) chain

end Ranking

/-! ## The net within a block -/

section Net

variable [DecidableEq ι] {records : List (SwissResultRecord ι)}

theorem netAgainst_congr {blockIds blockIds' : List ι}
    (h : ∀ id, id ∈ blockIds ↔ id ∈ blockIds') (bouts : List (SwissBout ι)) :
    netAgainst blockIds bouts = netAgainst blockIds' bouts := by
  rw [netAgainst, netAgainst]
  simp only [h]

/-- Wins less losses of a fighter against the block; 0 for a fighter with no record. -/
def netOf (records : List (SwissResultRecord ι)) (blockIds : List ι) (id : ι) : ℤ :=
  ((records.find? (·.registrationId = id)).map fun r => netAgainst blockIds r.bouts).getD 0

theorem get?_headToHeadWithin (hRecords : (records.map (·.registrationId)).Nodup)
    (blockIds : List ι) (id : ι) :
    (headToHeadWithin blockIds records).get? id =
      if id ∈ blockIds then
        (records.find? (·.registrationId = id)).map fun r => netAgainst blockIds r.bouts
      else none := by
  have hKeys : (((records.filter (·.registrationId ∈ blockIds)).map fun r =>
      (r.registrationId, netAgainst blockIds r.bouts)).map Prod.fst).Nodup := by
    rw [List.map_map]
    exact hRecords.sublist (List.filter_sublist.map _)
  rw [OrderedMap.get?, headToHeadWithin, OrderedMap.entries_ofList hKeys, List.find?_map,
    List.find?_filter, Option.map_map]
  by_cases hId : id ∈ blockIds
  · rw [if_pos hId]
    congr 2
    funext r
    by_cases hEq : r.registrationId = id
    · simp [hEq, hId]
    · simp [hEq]
  · rw [if_neg hId, Option.map_eq_none_iff, List.find?_eq_none]
    intro r _
    by_cases hEq : r.registrationId = id
    · simp [hEq, hId]
    · simp [hEq]

end Net

section Resolve

variable [DecidableEq ι] {records : List (SwissResultRecord ι)}

theorem get?_resolveBlock (hRecords : (records.map (·.registrationId)).Nodup)
    (resolved : OrderedMap ι ℤ) {block : List ι} {id : ι} (hNot : id ∉ block) :
    (resolveBlock records resolved block).get? id = resolved.get? id := by
  rw [resolveBlock]
  split_ifs
  · rfl
  · rw [OrderedMap.get?_merge, get?_headToHeadWithin hRecords, if_neg hNot]
    rfl

theorem get?_foldl_resolveBlock (hRecords : (records.map (·.registrationId)).Nodup)
    {blocks : List (List ι)} {id : ι} (hNot : id ∉ blocks.flatten) (resolved : OrderedMap ι ℤ) :
    (blocks.foldl (resolveBlock records) resolved).get? id = resolved.get? id := by
  induction blocks generalizing resolved with
  | nil => rfl
  | cons block blocks ih =>
    rw [List.flatten_cons, List.mem_append, not_or] at hNot
    rw [List.foldl_cons, ih hNot.2, get?_resolveBlock hRecords resolved hNot.1]

/-- A fighter's net is taken over the one block that holds them. -/
theorem get?_resolveBlocks (hRecords : (records.map (·.registrationId)).Nodup)
    {blocks : List (List ι)} (hNodup : blocks.flatten.Nodup) {block : List ι}
    (hBlock : block ∈ blocks) {id : ι} (hId : id ∈ block) :
    (resolveBlocks records blocks).get? id =
      if block.length < 2 then none
      else (records.find? (·.registrationId = id)).map fun r => netAgainst block r.bouts := by
  have hFold : ∀ resolved : OrderedMap ι ℤ, resolved.get? id = none →
      (blocks.foldl (resolveBlock records) resolved).get? id =
        if block.length < 2 then none
        else (records.find? (·.registrationId = id)).map fun r => netAgainst block r.bouts := by
    induction blocks with
    | nil => cases hBlock
    | cons first blocks ih =>
      intro resolved hNone
      obtain ⟨_, hRest, hApart⟩ := List.nodup_append.mp hNodup
      rw [List.foldl_cons]
      rcases List.mem_cons.mp hBlock with rfl | hBlock
      · have hNot : id ∉ blocks.flatten := fun h => hApart id hId id h rfl
        rw [get?_foldl_resolveBlock hRecords hNot, resolveBlock]
        split_ifs
        · exact hNone
        · rw [OrderedMap.get?_merge, get?_headToHeadWithin hRecords, if_pos hId, hNone,
            Option.or_none]
      · have hNot : id ∉ first := fun h =>
          hApart id h id (List.mem_flatten_of_mem hBlock hId) rfl
        exact ih hRest hBlock _ (by rw [get?_resolveBlock hRecords resolved hNot, hNone])
  exact hFold OrderedMap.empty rfl

end Resolve

/-! ## The blocks of a ranking -/

section Law

variable [LinearOrder ι] [LinearOrder τ] {rows rows' : List (StandingsRow ι τ)}
  {pre : List RankingRule} {records : List (SwissResultRecord ι)}

/-- The fighters level with the row on every key of the chain. -/
def levelIds (rows : List (StandingsRow ι τ)) (pre : List RankingRule) (row : StandingsRow ι τ) :
    List ι := (rows.filter fun other => Level pre row other).map (·.registrationId)

omit [LinearOrder ι] [LinearOrder τ] in
theorem mem_levelIds {row : StandingsRow ι τ} {id : ι} : id ∈ levelIds rows pre row ↔
    ∃ other ∈ rows, Level pre row other ∧ other.registrationId = id := by
  simp [levelIds, and_assoc]

omit [LinearOrder ι] [LinearOrder τ] in
theorem mem_levelIds_of_data (h : (rows'.map (·.data)).Perm (rows.map (·.data)))
    {row : StandingsRow ι τ} {id : ι} (hId : id ∈ levelIds rows' pre row) :
    id ∈ levelIds rows pre row := by
  obtain ⟨other', hMem', hLevel, rfl⟩ := mem_levelIds.mp hId
  obtain ⟨other, hMem, hData⟩ := List.mem_map.mp (h.mem_iff.mp (List.mem_map_of_mem hMem'))
  obtain ⟨hOtherId, hOther⟩ := Prod.mk.inj hData
  have hStats : other.stats = other'.stats := (Prod.mk.inj hOther).2
  refine mem_levelIds.mpr ⟨other, hMem, fun rule hRule => ?_, hOtherId⟩
  rw [hLevel rule hRule, StandingsRow.stat, StandingsRow.stat, hStats]

/-- Up to the key, the ranking is cut into its level blocks. -/
theorem cutInto_upTo : SortedBlocks.CutInto (RuleChain.compareChain compareRule pre)
    (applyRanking rows pre)
    (SortedBlocks.cut (·.decidingTiebreak.isNone) (applyRanking rows pre)) := by
  refine SortedBlocks.cutInto_cut ?_ ?_
  · refine pairwise_applyRanking.imp fun {above below} h => ?_
    exact Ordering.isLE_left_of_isLE_then (rowOrder_isLE_iff.mpr h)
  · refine List.isChain_iff_getElem.mpr fun i hi => ?_
    rw [Option.isNone_iff_eq_none, RuleChain.compareChain_eq_iff, level_iff]
    exact (ranked_applyRanking rows pre).level i _ _
      (List.getElem?_eq_getElem (Nat.lt_of_succ_lt hi)) (List.getElem?_eq_getElem hi)

theorem nodup_tiedBlocks (hIds : (rows.map (·.registrationId)).Nodup) :
    (tiedBlocks (applyRanking rows pre)).flatten.Nodup := by
  have hSame : (applyRanking rows pre).map (·.registrationId) =
      ((applyRanking rows pre).map (·.data)).map (·.1) := by
    rw [List.map_map]
    rfl
  rw [tiedBlocks, ← List.map_flatten, cutInto_upTo.flatten, hSame,
    ((ranked_applyRanking rows pre).data.map _).nodup_iff, List.map_map]
  exact hIds

/-- Where somebody is level with the row, what is filled in is the net within its own block. -/
theorem resolved_eq_net (hIds : (rows.map (·.registrationId)).Nodup)
    (hRecords : (records.map (·.registrationId)).Nodup) {row other : StandingsRow ι τ}
    (hRow : row ∈ rows) (hOther : other ∈ rows) (hLevel : Level pre row other)
    (hApart : row.registrationId ≠ other.registrationId) :
    ((resolveBlocks records (tiedBlocks (applyRanking rows pre))).get? row.registrationId).getD 0 =
      netOf records (levelIds rows pre row) row.registrationId := by
  have hData := (ranked_applyRanking rows pre).data
  obtain ⟨row', hRow', hSame⟩ :=
    List.mem_map.mp (hData.mem_iff.mpr (List.mem_map_of_mem (f := (·.data)) hRow))
  obtain ⟨hId, hRest⟩ := Prod.mk.inj hSame
  have hStats : row'.stats = row.stats := (Prod.mk.inj hRest).2
  rw [← cutInto_upTo.flatten] at hRow'
  obtain ⟨block, hBlock, hMem⟩ := List.mem_flatten.mp hRow'
  have hClass : ∀ id, id ∈ block.map (·.registrationId) ↔ id ∈ levelIds rows pre row := by
    intro id
    have hBlockIds : block.map (·.registrationId) =
        levelIds (applyRanking rows pre) pre row := by
      rw [cutInto_upTo.level block hBlock row' hMem, levelIds]
      congr 2
      funext other
      rw [decide_eq_decide, RuleChain.compareChain_eq_iff, level_iff]
      simp only [Level, StandingsRow.stat, hStats]
    rw [hBlockIds]
    exact ⟨mem_levelIds_of_data hData, mem_levelIds_of_data hData.symm⟩
  have hOwn : row.registrationId ∈ block.map (·.registrationId) :=
    hId ▸ List.mem_map_of_mem hMem
  have hTwo : ¬ (block.map (·.registrationId)).length < 2 := by
    intro hShort
    have hOtherId := (hClass other.registrationId).mpr (mem_levelIds.mpr ⟨other, hOther, hLevel, rfl⟩)
    rcases hIdsList : block.map (·.registrationId) with _ | ⟨first, _ | ⟨second, rest⟩⟩
    · rw [hIdsList] at hOwn
      cases hOwn
    · rw [hIdsList] at hOwn hOtherId
      exact hApart ((List.mem_singleton.mp hOwn).trans (List.mem_singleton.mp hOtherId).symm)
    · rw [hIdsList, List.length_cons, List.length_cons] at hShort
      omega
  rw [get?_resolveBlocks hRecords (nodup_tiedBlocks hIds) (List.mem_map_of_mem hBlock) hOwn,
    if_neg hTwo, netOf]
  simp only [netAgainst_congr hClass]

/-- What a row holds besides its head-to-head value. -/
def otherData (row : StandingsRow ι τ) : ι × τ × (String → Option ℚ) :=
  (row.registrationId, row.displayName, Function.update row.stats "headToHead" none)

omit [LinearOrder ι] [LinearOrder τ] in
theorem otherData_withHeadToHead (row : StandingsRow ι τ) (net : ℚ) :
    otherData (withHeadToHead row net) = otherData row := by
  rw [otherData, otherData, withHeadToHead, Function.update_idem]

omit [LinearOrder ι] [LinearOrder τ] in
theorem stat_of_otherData {row row' : StandingsRow ι τ} (h : otherData row = otherData row')
    {key : String} (hKey : key ≠ "headToHead") : row.stat key = row'.stat key := by
  have hStats := congrFun (Prod.mk.inj (Prod.mk.inj h).2).2 key
  rw [Function.update_of_ne hKey, Function.update_of_ne hKey] at hStats
  rw [StandingsRow.stat, StandingsRow.stat, hStats]

/-- The rows the last ranking sorts: each with the net of its block. -/
theorem rankWithHeadToHead_eq (records : List (SwissResultRecord ι)) {chain : List RankingRule}
    {direction : RankingDirection} {post : List RankingRule} (hChain : chain = pre ++ ⟨"headToHead", direction⟩ :: post)
    (hPre : ∀ rule ∈ pre, rule.key ≠ "headToHead")
    (hStart : ∀ row ∈ rows, row.stat "headToHead" = 0) :
    ∃ filled : List (StandingsRow ι τ),
      rankWithHeadToHead rows chain records = applyRanking filled chain ∧
        filled.map otherData = rows.map otherData ∧
        ∀ row ∈ filled, row.stat "headToHead" =
          ((resolveBlocks records (tiedBlocks (applyRanking rows pre))).get?
            row.registrationId).getD 0 := by
  have hIndex : chain.findIdx? (·.key = "headToHead") = some pre.length := by
    rw [hChain, List.findIdx?_append, List.findIdx?_eq_none_iff.mpr (by simpa using hPre)]
    simp [List.findIdx?_cons]
  have hTake : chain.take pre.length = pre := by rw [hChain, List.take_left]
  rw [rankWithHeadToHead]
  simp only [hIndex, hTake]
  split_ifs with hNone
  · refine ⟨rows, rfl, rfl, fun row hRow => ?_⟩
    rw [hStart row hRow, OrderedMap.get?, List.eq_nil_of_length_eq_zero hNone]
    rfl
  · refine ⟨_, rfl, ?_, ?_⟩
    · rw [List.map_map]
      exact List.map_congr_left fun row _ => otherData_withHeadToHead row _
    · intro row hRow
      obtain ⟨row, _, rfl⟩ := List.mem_map.mp hRow
      simp [withHeadToHead, StandingsRow.stat]

/-- The net of a row within the block of the fighters level with it. -/
def blockNet (records : List (SwissResultRecord ι)) (rows : List (StandingsRow ι τ))
    (pre : List RankingRule) (row : StandingsRow ι τ) : ℤ :=
  netOf records (levelIds rows pre row) row.registrationId

def NetBetter (direction : RankingDirection) (net net' : ℤ) : Prop :=
  match direction with
  | .desc => net' < net
  | .asc => net < net'

/-- The keys above head-to-head order the rows; a block level on them is in the order of the nets
within exactly that block, then of the rest of the chain. -/
structure HeadToHeadRanked (records : List (SwissResultRecord ι)) (pre : List RankingRule)
    (direction : RankingDirection) (post : List RankingRule)
    (rows out : List (StandingsRow ι τ)) : Prop where
  data : (out.map otherData).Perm (rows.map otherData)
  ordered : out.Pairwise fun above below =>
    Ahead pre above below ∨ Level pre above below ∧
      (NetBetter direction (blockNet records rows pre above) (blockNet records rows pre below) ∨
        blockNet records rows pre above = blockNet records rows pre below ∧
          (Ahead post above below ∨ Level post above below ∧ NamedBefore above below))

omit [LinearOrder τ] in
theorem blockNet_congr (hPre : ∀ rule ∈ pre, rule.key ≠ "headToHead") {row row' : StandingsRow ι τ}
    (h : otherData row = otherData row') :
    blockNet records rows pre row = blockNet records rows pre row' := by
  have hId : row.registrationId = row'.registrationId := (Prod.mk.inj h).1
  have hLevel : levelIds rows pre row = levelIds rows pre row' := by
    rw [levelIds, levelIds]
    congr 2
    funext other
    refine decide_eq_decide.mpr (forall₂_congr fun rule hRule => ?_)
    rw [stat_of_otherData h (hPre rule hRule)]
  rw [blockNet, blockNet, hLevel, hId]

theorem rankWithHeadToHead_eq_of_perm (h : rows'.Perm rows)
    (hIds : (rows.map (·.registrationId)).Nodup) (chain : List RankingRule) :
    rankWithHeadToHead rows' chain records = rankWithHeadToHead rows chain records := by
  rw [rankWithHeadToHead, rankWithHeadToHead, applyRanking_eq_of_perm h hIds]
  cases chain.findIdx? (·.key = "headToHead") with
  | none => rfl
  | some index =>
    simp only [applyRanking_eq_of_perm h hIds]
    split_ifs
    · rfl
    · refine applyRanking_eq_of_perm (h.map _) ?_
      rw [List.map_map]
      exact hIds

/-- A value filled in is the net, as soon as a second row is level. -/
theorem stat_headToHead (hIds : (rows.map (·.registrationId)).Nodup)
    (hRecords : (records.map (·.registrationId)).Nodup)
    (hPre : ∀ rule ∈ pre, rule.key ≠ "headToHead") {out : List (StandingsRow ι τ)}
    (hData : (out.map otherData).Perm (rows.map otherData))
    (hStat : ∀ row ∈ out, row.stat "headToHead" =
      ((resolveBlocks records (tiedBlocks (applyRanking rows pre))).get?
        row.registrationId).getD 0)
    {a b : StandingsRow ι τ} (ha : a ∈ out) (hb : b ∈ out)
    (hApart : a.registrationId ≠ b.registrationId) (hLevel : Level pre a b) :
    a.stat "headToHead" = blockNet records rows pre a := by
  obtain ⟨row, hRow, hRowData⟩ :=
    List.mem_map.mp (hData.mem_iff.mp (List.mem_map_of_mem (f := otherData) ha))
  obtain ⟨other, hOther, hOtherData⟩ :=
    List.mem_map.mp (hData.mem_iff.mp (List.mem_map_of_mem (f := otherData) hb))
  have hRowId : row.registrationId = a.registrationId := (Prod.mk.inj hRowData).1
  have hOtherId : other.registrationId = b.registrationId := (Prod.mk.inj hOtherData).1
  have hRowLevel : Level pre row other := by
    intro rule hRule
    rw [stat_of_otherData hRowData (hPre rule hRule), hLevel rule hRule,
      stat_of_otherData hOtherData (hPre rule hRule)]
  have hNet := resolved_eq_net hIds hRecords hRow hOther hRowLevel
    (by rw [hRowId, hOtherId]; exact hApart)
  rw [hStat a ha, ← hRowId, hNet, ← blockNet_congr hPre hRowData, blockNet]

theorem rankWithHeadToHead_ranks (hIds : (rows.map (·.registrationId)).Nodup)
    (hRecords : (records.map (·.registrationId)).Nodup)
    (hStart : ∀ row ∈ rows, row.stat "headToHead" = 0)
    (hPre : ∀ rule ∈ pre, rule.key ≠ "headToHead") (direction : RankingDirection)
    (post : List RankingRule) :
    let chain := pre ++ ⟨"headToHead", direction⟩ :: post
    (∀ rows', rows'.Perm rows →
        rankWithHeadToHead rows' chain records = rankWithHeadToHead rows chain records) ∧
      HeadToHeadRanked records pre direction post rows (rankWithHeadToHead rows chain records) := by
  intro chain
  refine ⟨fun _ h => rankWithHeadToHead_eq_of_perm h hIds chain, ?_⟩
  obtain ⟨filled, hOut, hFilled, hFilledStat⟩ :=
    rankWithHeadToHead_eq records (rfl : chain = pre ++ ⟨"headToHead", direction⟩ :: post) hPre
      hStart
  rw [hOut]
  have hRanked := ranked_applyRanking filled chain
  have hData : ((applyRanking filled chain).map otherData).Perm (rows.map otherData) := by
    rw [← hFilled, map_applyRanking otherData fun _ _ _ => rfl]
    exact (sortWith_perm filled).map _
  have hNodup : ((applyRanking filled chain).map (·.registrationId)).Nodup := by
    have hPerm := hData.map Prod.fst
    rw [List.map_map, List.map_map] at hPerm
    exact hPerm.nodup_iff.mpr hIds
  have hStat : ∀ row ∈ applyRanking filled chain, row.stat "headToHead" =
      ((resolveBlocks records (tiedBlocks (applyRanking rows pre))).get?
        row.registrationId).getD 0 := by
    intro row hRow
    obtain ⟨source, hSource, hSame⟩ :=
      List.mem_map.mp (hRanked.data.mem_iff.mp (List.mem_map_of_mem (f := (·.data)) hRow))
    obtain ⟨hId, hRest⟩ := Prod.mk.inj hSame
    have hStats : source.stats = row.stats := (Prod.mk.inj hRest).2
    rw [← hId, ← hFilledStat source hSource, StandingsRow.stat, StandingsRow.stat, hStats]
  refine ⟨hData, ?_⟩
  refine (hRanked.ordered.and (List.pairwise_map.mp hNodup)).imp_of_mem ?_
  rintro above below hAbove hBelow ⟨hOrder, hApart⟩
  have hNets : Level pre above below →
      above.stat "headToHead" = blockNet records rows pre above ∧
        below.stat "headToHead" = blockNet records rows pre below := fun hLevel =>
    ⟨stat_headToHead hIds hRecords hPre hData hStat hAbove hBelow hApart hLevel,
      stat_headToHead hIds hRecords hPre hData hStat hBelow hAbove hApart.symm
        fun rule hRule => (hLevel rule hRule).symm⟩
  have hSplit : Ahead pre above below ∨ Level pre above below ∧
      (RankingRule.Better ⟨"headToHead", direction⟩ above below ∨
        above.stat "headToHead" = below.stat "headToHead" ∧
          (Ahead post above below ∨ Level post above below ∧ NamedBefore above below)) := by
    rcases hOrder with hAhead | ⟨hLevel, hNamed⟩
    · rcases ahead_append.mp hAhead with hPreAhead | ⟨hPreLevel, hRest⟩
      · exact Or.inl hPreAhead
      · refine Or.inr ⟨hPreLevel, (ahead_cons.mp hRest).imp_right fun h => ⟨h.1, Or.inl h.2⟩⟩
    · obtain ⟨hPreLevel, hRest⟩ := level_append.mp hLevel
      obtain ⟨hSame, hPost⟩ := List.forall_mem_cons.mp hRest
      exact Or.inr ⟨hPreLevel, Or.inr ⟨hSame, Or.inr ⟨hPost, hNamed⟩⟩⟩
  refine hSplit.imp_right ?_
  rintro ⟨hLevel, hNet⟩
  obtain ⟨hAboveNet, hBelowNet⟩ := hNets hLevel
  refine ⟨hLevel, hNet.imp ?_ ?_⟩
  · intro hBetter
    cases direction with
    | asc =>
      rw [RankingRule.Better, hAboveNet, hBelowNet] at hBetter
      exact Int.cast_lt.mp hBetter
    | desc =>
      rw [RankingRule.Better, hAboveNet, hBelowNet] at hBetter
      exact Int.cast_lt.mp hBetter
  · rintro ⟨hSame, hRest⟩
    rw [hAboveNet, hBelowNet] at hSame
    exact ⟨Int.cast_inj.mp hSame, hRest⟩

/-- Fighters 1, 2 and 3 are level on points; 2 beat 1, and 3 beat 4 outside their block. -/
theorem rankWithHeadToHead_ranks_block :
    let records : List (SwissResultRecord ℕ) :=
      [⟨1, 3, [⟨2, .loss⟩]⟩, ⟨2, 3, [⟨1, .win⟩]⟩, ⟨3, 3, [⟨4, .win⟩]⟩, ⟨4, 0, [⟨3, .loss⟩]⟩]
    let rows : List (StandingsRow ℕ ℕ) :=
      [1, 2, 3, 4].map fun id => decorate records (fun _ => 0) ⟨0, id, id, fun _ => none, none⟩
    let pre : List RankingRule := [⟨"swissPts", .desc⟩]
    let post : List RankingRule := [⟨"buchholz", .desc⟩]
    let chain := pre ++ ⟨"headToHead", .desc⟩ :: post
    (∀ rows', rows'.Perm rows →
        rankWithHeadToHead rows' chain records = rankWithHeadToHead rows chain records) ∧
      HeadToHeadRanked records pre .desc post rows (rankWithHeadToHead rows chain records) := by
  refine rankWithHeadToHead_ranks (by decide) (by decide) ?_ (by decide) .desc _
  intro row hRow
  obtain ⟨id, _, rfl⟩ := List.mem_map.mp hRow
  exact decorate_headToHead _ _ _

end Law

end MyClash.Swiss
