/-
# What folding regions means

Regions that come from elsewhere may overlap, end before they start, or reach past the
document. A sweep along the lines folds them into a map all the same, as long as they are
listed by their starts. Here the map is described without the sweep: of the regions of a
target that hold a line, the one that ranks highest governs, by the line of its tag and
then by its place in the list; and a line is mixed when two of them or more are tagged.

Places only matter in comparison with each other. What a line is granted therefore depends
on no more than what the regions holding it state, in the order of the list, so regions that
hold no line, the parts behind the last line, and the regions of the other target leave no
trace.
-/

import LineGuard.Proofs.PermissionMap.LatestDeclaration
import Mathlib.Data.Prod.Lex
import Mathlib.Order.WithBot

namespace LineGuard

namespace PermissionMap

variable {regions others : List Region} {target : Target} {line lineCount : Nat}
  {defaults : Defaults} {active : List PlacedRegion}

/-! ## Regions out of order -/

/-- The first region that starts before its predecessor, with what comes before the two. -/
structure FirstDisorder (regions before : List Region) (previous current : Region) : Prop where
  begins : before ++ [previous, current] <+: regions
  ordered : (before ++ [previous]).IsChain (·.startLine ≤ ·.startLine)
  startsBefore : current.startLine < previous.startLine

/-- Regions in order may be put in front. -/
theorem FirstDisorder.cons {before : List Region} {first second previous current : Region}
    (h : FirstDisorder (second :: regions) before previous current)
    (hfirst : first.startLine ≤ second.startLine) :
    FirstDisorder (first :: second :: regions) (first :: before) previous current where
  begins := List.cons_prefix_cons.mpr ⟨rfl, h.begins⟩
  ordered := by
    have hbegins := h.begins
    have hordered := h.ordered
    -- The second region is the one behind which the chain goes on.
    cases before with
    | nil =>
      obtain ⟨rfl, _⟩ := List.cons_prefix_cons.mp hbegins
      exact List.isChain_pair.mpr hfirst
    | cons next before =>
      obtain ⟨rfl, _⟩ := List.cons_prefix_cons.mp hbegins
      exact List.isChain_cons_cons.mpr ⟨hfirst, hordered⟩
  startsBefore := h.startsBefore

theorem exists_firstDisorder {index : Nat} {problem : Problem}
    (h : disorder? index regions = some problem) :
    ∃ before previous current, FirstDisorder regions before previous current ∧
      problem = .unsortedRegions (index + before.length + 1) previous.startLine
        current.startLine := by
  induction regions generalizing index with
  | nil => cases h
  | cons first rest ih =>
    cases rest with
    | nil => cases h
    | cons second rest =>
      rw [disorder?] at h
      by_cases hlt : second.startLine < first.startLine
      · rw [if_pos hlt] at h
        have hfound : FirstDisorder (first :: second :: rest) [] first second :=
          ⟨List.prefix_append [first, second] rest, List.isChain_singleton first, hlt⟩
        exact ⟨[], first, second, hfound, (Option.some.inj h).symm⟩
      · rw [if_neg hlt] at h
        obtain ⟨before, previous, current, hfound, hproblem⟩ := ih h
        refine ⟨first :: before, previous, current, hfound.cons (Nat.le_of_not_lt hlt), ?_⟩
        rw [hproblem, List.length_cons]
        congr 1
        omega

theorem exists_eq_error_iff :
    (∃ problem, ofRegions lineCount regions defaults = .error problem) ↔
      ¬ regions.Pairwise (·.startLine ≤ ·.startLine) := by
  have hsorted : disorder? 0 regions = none ↔ regions.Pairwise (·.startLine ≤ ·.startLine) :=
    disorder?_eq_none_iff
  rw [← hsorted, ofRegions]
  cases disorder? 0 regions <;> simp

theorem disorder?_of_ofRegions_eq_error {problem : Problem}
    (h : ofRegions lineCount regions defaults = .error problem) :
    disorder? 0 regions = some problem := by
  rw [ofRegions] at h
  cases hdisorder : disorder? 0 regions with
  | none => simp [hdisorder] at h
  | some found => simpa [hdisorder] using h

theorem pairwise_of_ofRegions_eq_ok {map : PermissionMap}
    (h : ofRegions lineCount regions defaults = .ok map) :
    regions.Pairwise (·.startLine ≤ ·.startLine) := by
  by_contra hnot
  obtain ⟨problem, herror⟩ := exists_eq_error_iff.mpr hnot
  cases h.symm.trans herror

/-! ## The region that ranks highest -/

/-- Regions rank by the line of their tag, where no tag is lowest, and then by place. -/
def rank (placed : PlacedRegion) : WithBot Nat ×ₗ Nat :=
  toLex (placed.1.sourceLine.elim ⊥ WithBot.some, placed.2)

theorem prevails_iff {a b : PlacedRegion} : prevails a b = true ↔ rank b < rank a := by
  rw [rank, rank, Prod.Lex.toLex_lt_toLex, prevails]
  cases ha : a.1.sourceLine with
  | none => cases hb : b.1.sourceLine <;> simp
  | some m => cases hb : b.1.sourceLine <;> simp [eq_comm (a := m)]

/-- The governing region is one of the active ones, and none of them ranks higher. -/
theorem governing?_cases (active : List PlacedRegion) :
    (active = [] ∧ governing? active = none) ∨
      ∃ winner ∈ active, governing? active = some winner ∧ ∀ p ∈ active, rank p ≤ rank winner := by
  induction active with
  | nil => exact .inl ⟨rfl, rfl⟩
  | cons a rest ih =>
    right
    rw [governing?]
    rcases ih with ⟨rfl, hnone⟩ | ⟨winner, hmem, hsome, hhighest⟩
    · rw [hnone]
      refine ⟨a, List.mem_cons_self, rfl, fun p hp => ?_⟩
      exact le_of_eq (congrArg rank (List.mem_singleton.mp hp))
    · rw [hsome]
      by_cases hprevails : prevails winner a = true
      · have ha : rank a ≤ rank winner := le_of_lt (prevails_iff.mp hprevails)
        refine ⟨winner, List.mem_cons_of_mem a hmem, if_pos hprevails, ?_⟩
        exact List.forall_mem_cons.mpr ⟨ha, hhighest⟩
      · have ha : rank winner ≤ rank a := not_lt.mp (mt prevails_iff.mpr hprevails)
        refine ⟨a, List.mem_cons_self, if_neg hprevails, ?_⟩
        exact List.forall_mem_cons.mpr ⟨le_refl _, fun p hp => (hhighest p hp).trans ha⟩

/-- A region, with its place in a list, holds a line for a target. -/
structure Holds (regions : List Region) (target : Target) (line : Nat) (placed : PlacedRegion) :
    Prop where
  listed : regions[placed.2]? = some placed.1
  target_eq : placed.1.target = target
  starts : placed.1.startLine ≤ line
  ends : line ≤ placed.1.endLine

theorem mem_holders_iff {placed : PlacedRegion} :
    placed ∈ holders regions target line ↔ Holds regions target line placed := by
  rw [holders, List.mem_filter, List.mem_zipIdx_iff_getElem?, Bool.and_eq_true, beq_iff_eq,
    Region.contains_iff]
  constructor
  · rintro ⟨hlisted, htarget, hstarts, hends⟩
    exact ⟨hlisted, htarget, hstarts, hends⟩
  · rintro ⟨hlisted, htarget, hstarts, hends⟩
    exact ⟨hlisted, htarget, hstarts, hends⟩

/-- What settles the grant of a line for a target: the highest ranked of the regions that
hold the line, or the default where none does. -/
inductive Settles (regions : List Region) (default : Permission) (target : Target) (line : Nat) :
    Grant → Prop
  | region {r : Region} {place : Nat} (holds : Holds regions target line (r, place))
      (highest : ∀ other, Holds regions target line other → rank other ≤ rank (r, place)) :
      Settles regions default target line ⟨r.permission, r.isContext⟩
  | default (unheld : ∀ other, ¬ Holds regions target line other) :
      Settles regions default target line ⟨default, false⟩

theorem settles_grant_holders (default : Permission) :
    Settles regions default target line (grant default (holders regions target line)) := by
  rw [grant]
  rcases governing?_cases (holders regions target line) with
    ⟨hempty, hnone⟩ | ⟨winner, hmem, hsome, hhighest⟩
  · rw [hnone]
    apply Settles.default
    intro other hother
    have hmem := mem_holders_iff.mpr hother
    rw [hempty] at hmem
    cases hmem
  · rw [hsome]
    exact .region (mem_holders_iff.mp hmem) fun other hother =>
      hhighest other (mem_holders_iff.mpr hother)

/-! ## Mixed lines -/

/-- The lines of the tags of the regions that hold a line for a target, in the order of the
list. -/
def tagLinesOn (regions : List Region) (target : Target) (line : Nat) : List Nat :=
  (regions.filter fun r => r.target == target && r.contains line).filterMap (·.sourceLine)

/-- The mixed entries of a line. -/
def mixturesOn (regions : List Region) (line : Nat) : List MixedLine :=
  (mixture? line .ai (holders regions .ai line)).toList ++
    (mixture? line .human (holders regions .human line)).toList

theorem mixture?_holders :
    mixture? line target (holders regions target line) =
      if 1 < (tagLinesOn regions target line).length then
        some ⟨line, target, tagLinesOn regions target line⟩
      else none := by
  have hlines : (holders regions target line).filterMap (·.1.sourceLine) =
      tagLinesOn regions target line := by
    rw [tagLinesOn, ← map_fst_holders, List.filterMap_map]
    rfl
  rw [mixture?, hlines]

theorem mixture?_eq_some_iff {entry : MixedLine} :
    mixture? line target (holders regions target line) = some entry ↔
      entry.line = line ∧ entry.target = target ∧
        entry.tagLines = tagLinesOn regions target line ∧ 1 < entry.tagLines.length := by
  rw [mixture?_holders]
  constructor
  · intro h
    split at h
    · next hlong =>
      obtain rfl := Option.some.inj h
      exact ⟨rfl, rfl, rfl, hlong⟩
    · cases h
  · rintro ⟨rfl, rfl, htags, hlong⟩
    rw [← htags]
    exact if_pos hlong

theorem mem_mixturesOn_iff {entry : MixedLine} :
    entry ∈ mixturesOn regions line ↔ entry.line = line ∧
      entry.tagLines = tagLinesOn regions entry.target line ∧ 1 < entry.tagLines.length := by
  rw [mixturesOn, List.mem_append, Option.mem_toList, Option.mem_toList, mixture?_eq_some_iff,
    mixture?_eq_some_iff]
  constructor
  · rintro (⟨hline, htarget, htags⟩ | ⟨hline, htarget, htags⟩)
    · exact ⟨hline, htarget ▸ htags⟩
    · exact ⟨hline, htarget ▸ htags⟩
  · rintro ⟨hline, htags⟩
    cases htarget : entry.target with
    | ai => exact .inl ⟨hline, rfl, htarget ▸ htags⟩
    | human => exact .inr ⟨hline, rfl, htarget ▸ htags⟩

/-- Entries are listed by line and, on one line, by target. -/
def ListedBefore (a b : MixedLine) : Prop :=
  a.line < b.line ∨ (a.line = b.line ∧ a.target.rank < b.target.rank)

theorem pairwise_mixturesOn : (mixturesOn regions line).Pairwise ListedBefore := by
  have hone (mixed : Option MixedLine) : mixed.toList.Pairwise ListedBefore := by
    cases mixed with
    | none => exact List.Pairwise.nil
    | some entry => exact List.pairwise_singleton _ entry
  refine List.pairwise_append.mpr ⟨hone _, hone _, fun a ha b hb => .inr ?_⟩
  obtain ⟨haline, hatarget, _⟩ := mixture?_eq_some_iff.mp (Option.mem_toList.mp ha)
  obtain ⟨hbline, hbtarget, _⟩ := mixture?_eq_some_iff.mp (Option.mem_toList.mp hb)
  rw [haline, hbline, hatarget, hbtarget]
  exact ⟨rfl, Nat.zero_lt_one⟩

theorem pairwise_flatMap_mixturesOn :
    ((List.range lineCount).flatMap (mixturesOn regions)).Pairwise ListedBefore := by
  refine List.pairwise_flatMap.mpr ⟨fun line _ => pairwise_mixturesOn, ?_⟩
  refine List.pairwise_lt_range.imp fun {line later} hlt a ha b hb => .inl ?_
  rwa [(mem_mixturesOn_iff.mp ha).1, (mem_mixturesOn_iff.mp hb).1]

/-! ## What leaves no trace -/

/-- The rule that a region in a list states. -/
def rule (placed : PlacedRegion) : Rule := Rule.ofRegion placed.1

/-- What the regions that hold a line for a target state, in the order of the list. -/
def statedOn (regions : List Region) (target : Target) (line : Nat) : List Rule :=
  (regions.filter fun r => r.target == target && r.contains line).map Rule.ofRegion

theorem map_rule_holders :
    (holders regions target line).map rule = statedOn regions target line := by
  rw [statedOn, ← map_fst_holders, List.map_map]
  rfl

theorem pairwise_place_holders : (holders regions target line).Pairwise (·.2 < ·.2) := by
  have hplaces : regions.zipIdx.Pairwise (·.2 < ·.2) := by
    rw [← List.pairwise_map (f := Prod.snd), List.zipIdx_map_snd]
    exact List.pairwise_lt_range'
  exact hplaces.filter _

/-- Whether a rule gives way to one that is listed later. -/
def GivesWay (first later : Rule) : Prop :=
  first.sourceLine.elim (⊥ : WithBot Nat) WithBot.some ≤ later.sourceLine.elim ⊥ WithBot.some

instance (first later : Rule) : Decidable (GivesWay first later) :=
  inferInstanceAs (Decidable (first.sourceLine.elim (⊥ : WithBot Nat) WithBot.some ≤
    later.sourceLine.elim ⊥ WithBot.some))

/-- Of two regions the one listed later prevails, unless its tag is declared earlier. -/
theorem prevails_iff_givesWay {a b : PlacedRegion} (hplace : a.2 < b.2) :
    prevails b a = true ↔ GivesWay (rule a) (rule b) := by
  rw [prevails_iff, rank, rank, Prod.Lex.toLex_lt_toLex, GivesWay, le_iff_lt_or_eq]
  exact or_congr_right (and_iff_left hplace)

/-- The rule of the governing region, from the rules in their order. -/
theorem map_rule_governing?_cons {a : PlacedRegion} {rest : List PlacedRegion}
    (hplaces : ∀ p ∈ rest, a.2 < p.2) :
    (governing? (a :: rest)).map rule =
      match (governing? rest).map rule with
      | some later => if GivesWay (rule a) later then some later else some (rule a)
      | none => some (rule a) := by
  rw [governing?]
  rcases governing?_cases rest with ⟨_, hnone⟩ | ⟨winner, hmem, hsome, _⟩
  · rw [hnone]
    rfl
  · have hprevails := prevails_iff_givesWay (hplaces winner hmem)
    rw [hsome, Option.map_some]
    by_cases hgives : GivesWay (rule a) (rule winner)
    · simp [hgives, hprevails.mpr hgives]
    · simp [hgives, mt hprevails.mp hgives]

/-- Who governs depends on what the regions state, in their order, and not on their places. -/
theorem map_rule_governing?_congr {others : List PlacedRegion}
    (hactive : active.Pairwise (·.2 < ·.2)) (hothers : others.Pairwise (·.2 < ·.2))
    (h : active.map rule = others.map rule) :
    (governing? active).map rule = (governing? others).map rule := by
  induction active generalizing others with
  | nil =>
    obtain rfl := List.map_eq_nil_iff.mp h.symm
    rfl
  | cons a rest ih =>
    cases others with
    | nil => cases h
    | cons b rest' =>
      obtain ⟨hab, hrest⟩ := List.cons.inj h
      obtain ⟨ha, hactive⟩ := List.pairwise_cons.mp hactive
      obtain ⟨hb, hothers⟩ := List.pairwise_cons.mp hothers
      rw [map_rule_governing?_cons ha, map_rule_governing?_cons hb, ih hactive hothers hrest, hab]

theorem grant_holders_congr (default : Permission)
    (h : statedOn others target line = statedOn regions target line) :
    grant default (holders others target line) = grant default (holders regions target line) := by
  have hgrant (active : List PlacedRegion) : grant default active =
      (((governing? active).map rule).map Grant.ofRule).getD ⟨default, false⟩ := by
    rw [grant_eq, Option.map_map, Option.map_map]
    rfl
  rw [← map_rule_holders, ← map_rule_holders] at h
  rw [hgrant, hgrant, map_rule_governing?_congr pairwise_place_holders pairwise_place_holders h]

theorem tagLinesOn_eq :
    tagLinesOn regions target line = (statedOn regions target line).filterMap (·.sourceLine) := by
  rw [tagLinesOn, statedOn, List.filterMap_map]
  rfl

theorem mixture?_holders_congr (h : statedOn others target line = statedOn regions target line) :
    mixture? line target (holders others target line) =
      mixture? line target (holders regions target line) := by
  rw [mixture?_holders, mixture?_holders, tagLinesOn_eq, tagLinesOn_eq, h]

/-- Lists of regions that state the same on every line of a document make the same map. -/
theorem ofRegions_congr (hregions : regions.Pairwise (·.startLine ≤ ·.startLine))
    (hothers : others.Pairwise (·.startLine ≤ ·.startLine))
    (h : ∀ target, ∀ line < lineCount,
      statedOn others target line = statedOn regions target line) :
    ofRegions lineCount others defaults = ofRegions lineCount regions defaults := by
  rw [ofRegions_eq lineCount defaults hothers, ofRegions_eq lineCount defaults hregions]
  congr 2
  · apply List.map_congr_left
    intro line hline
    have hline := List.mem_range.mp hline
    rw [grantsAt, grantsAt, grant_holders_congr _ (h .ai line hline),
      grant_holders_congr _ (h .human line hline)]
  · apply List.flatMap_congr
    intro line hline
    have hline := List.mem_range.mp hline
    rw [mixture?_holders_congr (h .ai line hline), mixture?_holders_congr (h .human line hline)]

end PermissionMap

/-- The part of a region that lies in a document of so many lines, if there is one. -/
def Region.within? (lineCount : Nat) (r : Region) : Option Region :=
  if r.startLine ≤ r.endLine ∧ r.startLine < lineCount then
    some { r with endLine := min r.endLine (lineCount - 1) }
  else none

theorem Region.within?_eq_some_iff {lineCount : Nat} {r part : Region} :
    r.within? lineCount = some part ↔ (r.startLine ≤ r.endLine ∧ r.startLine < lineCount) ∧
      { r with endLine := min r.endLine (lineCount - 1) } = part := by
  rw [within?]
  split <;> simp [*]

namespace PermissionMap

variable {regions : List Region} {target : Target} {line lineCount : Nat} {defaults : Defaults}

/-- On the lines of the document a part states what the whole does. -/
theorem statedOn_filterMap_within? (regions : List Region) (target : Target)
    (hline : line < lineCount) :
    statedOn (regions.filterMap (Region.within? lineCount)) target line =
      statedOn regions target line := by
  have hpart {r part : Region} (h : r.within? lineCount = some part) :
      (part.target == target && part.contains line) =
        (r.target == target && r.contains line) := by
    obtain ⟨_, rfl⟩ := Region.within?_eq_some_iff.mp h
    have hend : line ≤ min r.endLine (lineCount - 1) ↔ line ≤ r.endLine := by omega
    rw [Region.contains, Region.contains, decide_eq_decide.mpr hend]
  have hlost {r : Region} (h : r.within? lineCount = none) : r.contains line = false := by
    by_contra hcontains
    have hbounds := Region.contains_iff.mp (by simpa using hcontains)
    rw [Region.within?, if_pos (by omega)] at h
    cases h
  induction regions with
  | nil => rfl
  | cons r rest ih =>
    rw [statedOn, statedOn, List.filterMap_cons]
    cases hwithin : r.within? lineCount with
    | none =>
      rw [List.filter_cons_of_neg (by simp [hlost hwithin])]
      exact ih
    | some part =>
      obtain ⟨_, rfl⟩ := Region.within?_eq_some_iff.mp hwithin
      rw [List.filter_cons, List.filter_cons, hpart hwithin]
      split
      · exact congrArg (Rule.ofRegion r :: ·) ih
      · exact ih

theorem pairwise_startLine_filterMap_within?
    (hsorted : regions.Pairwise (·.startLine ≤ ·.startLine)) :
    (regions.filterMap (Region.within? lineCount)).Pairwise (·.startLine ≤ ·.startLine) := by
  refine List.pairwise_filterMap.mpr (hsorted.imp fun {r s} hle part hpart part' hpart' => ?_)
  obtain ⟨_, rfl⟩ := Region.within?_eq_some_iff.mp hpart
  obtain ⟨_, rfl⟩ := Region.within?_eq_some_iff.mp hpart'
  exact hle

theorem statedOn_filter_target :
    statedOn (regions.filter (·.target == target)) target line = statedOn regions target line := by
  rw [statedOn, List.filter_filter, statedOn]
  congr 2
  funext r
  cases r.target == target <;> simp

theorem tagLinesOn_filter_target_of_ne {other : Target} (hne : other ≠ target) :
    tagLinesOn (regions.filter (·.target == target)) other line = [] := by
  have hnone : ((regions.filter (·.target == target)).filter fun r =>
      r.target == other && r.contains line) = [] := by
    rw [List.filter_filter]
    apply List.filter_eq_nil_iff.mpr
    intro r _ hboth
    simp only [Bool.and_eq_true, beq_iff_eq] at hboth
    exact hne (hboth.1.1.symm.trans hboth.2)
  rw [tagLinesOn, hnone]
  rfl

theorem toList_mixture?_filter_target (other : Target) :
    (mixture? line other (holders (regions.filter (·.target == target)) other line)).toList =
      (mixture? line other (holders regions other line)).toList.filter (·.target == target) := by
  have htarget : ∀ entry ∈ (mixture? line other (holders regions other line)).toList,
      entry.target = other := fun entry hentry =>
    (mixture?_eq_some_iff.mp (Option.mem_toList.mp hentry)).2.1
  by_cases hsame : other = target
  · subst hsame
    rw [mixture?_holders_congr statedOn_filter_target, List.filter_eq_self.mpr]
    exact fun entry hentry => beq_iff_eq.mpr (htarget entry hentry)
  · rw [mixture?_holders, tagLinesOn_filter_target_of_ne hsame, List.filter_eq_nil_iff.mpr]
    · rfl
    · exact fun entry hentry h => hsame ((htarget entry hentry).symm.trans (beq_iff_eq.mp h))

theorem mixturesOn_filter_target :
    mixturesOn (regions.filter (·.target == target)) line =
      (mixturesOn regions line).filter (·.target == target) := by
  rw [mixturesOn, toList_mixture?_filter_target, toList_mixture?_filter_target, mixturesOn,
    List.filter_append]

/-! ## The map -/

/-- What a map of permissions makes of regions in order. -/
structure Folds (lineCount : Nat) (regions : List Region) (defaults : Defaults)
    (map : PermissionMap) : Prop where
  /-- There is one entry for each line, in order. -/
  numbered : map.lines.map (·.line) = List.range lineCount
  settled : ∀ grants ∈ map.lines, ∀ target,
    Settles regions (defaults.get target) target grants.line (grants.get target)
  /-- A line is mixed for a target when two or more of the regions that hold it are tagged. -/
  mixed_iff : ∀ entry, entry ∈ map.mixed ↔ entry.line < lineCount ∧
    entry.tagLines = tagLinesOn regions entry.target entry.line ∧ 1 < entry.tagLines.length
  listed : map.mixed.Pairwise ListedBefore
  /-- Regions that hold no line of the document, and the parts behind its end, have no effect. -/
  trimmed : ofRegions lineCount (regions.filterMap (Region.within? lineCount)) defaults = .ok map
  /-- What is said for one target does not depend on the regions of the other. -/
  separate : ∀ target, ∃ alone,
    ofRegions lineCount (regions.filter (·.target == target)) defaults = .ok alone ∧
      alone.lines.map (·.get target) = map.lines.map (·.get target) ∧
      alone.mixed = map.mixed.filter (·.target == target)

theorem exists_folds (lineCount : Nat) (defaults : Defaults)
    (hsorted : regions.Pairwise (·.startLine ≤ ·.startLine)) :
    ∃ map, ofRegions lineCount regions defaults = .ok map ∧
      Folds lineCount regions defaults map := by
  have hmap := ofRegions_eq lineCount defaults hsorted
  refine ⟨_, hmap, ?_⟩
  constructor
  case numbered =>
    rw [List.map_map]
    exact List.map_id _
  case settled =>
    intro grants hgrants target
    obtain ⟨line, _, rfl⟩ := List.mem_map.mp hgrants
    rw [get_grantsAt]
    exact settles_grant_holders (defaults.get target)
  case mixed_iff =>
    intro entry
    have hmem : entry ∈ (List.range lineCount).flatMap (mixturesOn regions) ↔
        ∃ line < lineCount, entry ∈ mixturesOn regions line := by
      simp only [List.mem_flatMap, List.mem_range]
    refine hmem.trans ⟨?_, ?_⟩
    · rintro ⟨line, hline, hentry⟩
      obtain ⟨rfl, htags⟩ := mem_mixturesOn_iff.mp hentry
      exact ⟨hline, htags⟩
    · rintro ⟨hline, htags⟩
      exact ⟨entry.line, hline, mem_mixturesOn_iff.mpr ⟨rfl, htags⟩⟩
  case listed => exact pairwise_flatMap_mixturesOn
  case trimmed =>
    refine (ofRegions_congr hsorted (pairwise_startLine_filterMap_within? hsorted) ?_).trans hmap
    exact fun target line hline => statedOn_filterMap_within? regions target hline
  case separate =>
    intro target
    refine ⟨_, ofRegions_eq lineCount defaults (hsorted.filter _), ?_, ?_⟩
    · rw [List.map_map, List.map_map]
      apply List.map_congr_left
      intro line _
      rw [Function.comp_apply, Function.comp_apply, get_grantsAt, get_grantsAt]
      exact grant_holders_congr _ statedOn_filter_target
    · have hmixed : (List.range lineCount).flatMap
          (mixturesOn (regions.filter (·.target == target))) =
            ((List.range lineCount).flatMap (mixturesOn regions)).filter (·.target == target) := by
        rw [List.filter_flatMap]
        apply List.flatMap_congr
        exact fun line _ => mixturesOn_filter_target
      exact hmixed

/-- Regions are refused exactly when one of them starts before its predecessor, and the first
that does is named. All others make the map that the regions holding each line call for. -/
theorem refused_or_folds (lineCount : Nat) (regions : List Region) (defaults : Defaults) :
    ((∃ problem, ofRegions lineCount regions defaults = .error problem) ↔
        ∃ before previous current after, regions = before ++ previous :: current :: after ∧
          current.startLine < previous.startLine) ∧
      (∀ problem, ofRegions lineCount regions defaults = .error problem →
        ∃ before previous current, FirstDisorder regions before previous current ∧
          problem = .unsortedRegions (before.length + 1) previous.startLine current.startLine) ∧
      ∀ map, ofRegions lineCount regions defaults = .ok map →
        Folds lineCount regions defaults map := by
  have hfirst (problem : Problem) (h : ofRegions lineCount regions defaults = .error problem) :
      ∃ before previous current, FirstDisorder regions before previous current ∧
        problem = .unsortedRegions (before.length + 1) previous.startLine current.startLine := by
    simpa using exists_firstDisorder (disorder?_of_ofRegions_eq_error h)
  refine ⟨⟨?_, ?_⟩, hfirst, ?_⟩
  · rintro ⟨problem, hproblem⟩
    obtain ⟨before, previous, current, hdisorder, _⟩ := hfirst problem hproblem
    obtain ⟨after, hregions⟩ := hdisorder.begins
    refine ⟨before, previous, current, after, ?_, hdisorder.startsBefore⟩
    rw [← hregions, List.append_assoc]
    rfl
  · rintro ⟨before, previous, current, after, rfl, hlt⟩
    refine exists_eq_error_iff.mpr fun hsorted => ?_
    have hbehind := (List.pairwise_append.mp hsorted).2.1
    have hle := (List.pairwise_cons.mp hbehind).1 current List.mem_cons_self
    exact Nat.not_le_of_lt hlt hle
  · intro map hmap
    obtain ⟨found, hfound, hfolds⟩ := exists_folds lineCount defaults
      (pairwise_of_ofRegions_eq_ok hmap)
    exact Except.ok.inj (hmap.symm.trans hfound) ▸ hfolds

end PermissionMap

end LineGuard
