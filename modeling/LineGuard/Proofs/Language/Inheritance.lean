/-
# Inherited lists

The lists of a language come down to it along its lineage: the language, its parent, the
parent of that, up to the first name that is not declared or stands on the way already. From
the far end each language puts its own lists to those it inherits. The lineage is said by
counting steps up from the language, without any record of what has been met, and there is
exactly one, whatever the declarations say: parents may be missing, a language may be its own
parent, and a circle may be as long as the table.

Following the parents therefore ends. The step bound that the table allows for is never the
reason for it, because every step up takes one language off those not met yet.

A circle is cut where it would be entered a second time. So languages on one circle inherit
from each other, but each along a way of its own, and only off the circles is what a language
inherits just what its parent lists.
-/

import LineGuard.Language.Reader
import LineGuard.Proofs.Json.Record
import LineGuard.Proofs.Scope.TreeConstruct
import LineGuard.Proofs.Text.Dict

namespace LineGuard

namespace LanguageDeclaration

variable {declared : Dict LanguageDeclaration} {language : LanguageDeclaration}
  {id parent : Text} {met : List Text} {scopes : ScopeKinds}

/-! ## One language -/

/-- What a language lists under a scope name, given what it inherits under each name. An
overriding list takes the place of what is inherited; any other is appended to it, as far as
it names anything new. -/
def merge (language : LanguageDeclaration) (inherited : Text → Option (List Text))
    (scope : Text) : Option (List Text) :=
  match language.overrides.get? scope, language.scopes.get? scope with
  | some replacing, _ => some replacing
  | none, some own =>
    let listed := (inherited scope).getD []
    some (listed ++ (own.filter (!listed.contains ·)).eraseDups)
  | none, none => inherited scope

/-- A declaration does not hold two lists under one name. -/
structure ListsOnce (language : LanguageDeclaration) : Prop where
  scopes : language.scopes.Ascends
  overrides : language.overrides.Ascends

/-- Kinds are added in order and without repetition. -/
theorem addKinds_eq (listed kinds : List Text) :
    addKinds listed kinds = listed ++ (kinds.filter (!listed.contains ·)).eraseDups := by
  induction kinds generalizing listed with
  | nil => simp [addKinds]
  | cons kind rest ih =>
    rw [addKinds, List.foldl_cons, ← addKinds]
    by_cases hlisted : listed.contains kind = true
    · rw [if_pos hlisted, ih, List.filter_cons_of_neg (by simpa using hlisted)]
    · -- What is added counts as listed for the kinds that follow.
      have hnew : rest.filter (!(listed ++ [kind]).contains ·) =
          (rest.filter (!listed.contains ·)).filter (fun other => !other == kind) := by
        rw [List.filter_filter]
        refine List.filter_congr fun other _ => ?_
        by_cases heq : other = kind <;> simp [heq]
      rw [if_neg hlisted, ih, List.filter_cons_of_pos (by simpa using hlisted),
        List.eraseDups_cons, hnew, List.append_assoc, List.singleton_append]

theorem get?_extend (h : language.ListsOnce) (inherited : ScopeKinds) :
    (language.extend inherited).get? = language.merge inherited.get? := by
  funext scope
  have hadded := Dict.get?_foldl_insert h.scopes
    (fun listed kinds => addKinds (listed.getD []) kinds) inherited scope
  have hreplaced := Dict.get?_foldl_insert h.overrides (fun _ kinds => kinds)
    (language.scopes.foldl
      (fun lists entry => lists.insert entry.1 (addKinds ((lists.get? entry.1).getD []) entry.2))
      inherited) scope
  rw [hadded] at hreplaced
  refine hreplaced.trans ?_
  rw [merge]
  cases language.overrides.get? scope with
  | some replacing => rfl
  | none =>
    cases language.scopes.get? scope with
    | some own => exact congrArg some (addKinds_eq _ own)
    | none => rfl

/-- Without overriding lists nothing inherited is lost. -/
theorem mem_merge_of_mem {inherited : Text → Option (List Text)} {scope kind : Text}
    (hoverrides : language.overrides = []) (h : kind ∈ (inherited scope).getD []) :
    kind ∈ (language.merge inherited scope).getD [] := by
  rw [merge, hoverrides, Dict.get?_nil]
  cases language.scopes.get? scope with
  | some own => exact List.mem_append_left _ h
  | none => exact h

/-! ## Lineages -/

/-- The language so many steps up from another; none, if there is no parent on the way. -/
def forebear? (declared : Dict LanguageDeclaration) : (steps : Nat) → (id : Text) → Option Text
  | 0, id => some id
  | steps + 1, id => ((declared.get? id).bind (·.parent)).bind (forebear? declared steps)

theorem forebear?_succ_of_parent {steps : Nat} (hget : declared.get? id = some language)
    (hparent : language.parent = some parent) :
    forebear? declared (steps + 1) id = forebear? declared steps parent := by
  rw [forebear?, hget, Option.bind_some, hparent, Option.bind_some]

/-- The languages from one up, each with its declaration, to the first that is not declared
or stands on the way already. Some languages may count as met before. -/
structure IsLineage (declared : Dict LanguageDeclaration) (met : List Text) (id : Text)
    (lineage : List (Text × LanguageDeclaration)) : Prop where
  forebear?_eq : ∀ steps entry, lineage[steps]? = some entry →
    forebear? declared steps id = some entry.1
  get?_eq : ∀ entry ∈ lineage, declared.get? entry.1 = some entry.2
  nodup : (lineage.map Prod.fst).Nodup
  notMem_met : ∀ entry ∈ lineage, entry.1 ∉ met
  ends : ∀ next, forebear? declared lineage.length id = some next →
    declared.get? next = none ∨ next ∈ lineage.map Prod.fst ∨ next ∈ met

/-- Going up from a language, some language is met twice. -/
def GoesInCircles (declared : Dict LanguageDeclaration) (id : Text) : Prop :=
  ∃ earlier later ancestor, earlier < later ∧
    forebear? declared earlier id = some ancestor ∧ forebear? declared later id = some ancestor

namespace IsLineage

variable {lineage other : List (Text × LanguageDeclaration)}

/-- Of two lineages of a language none stops in front of the other's end. -/
theorem length_le (h : IsLineage declared met id lineage) (h' : IsLineage declared met id other) :
    other.length ≤ lineage.length := by
  by_contra hlonger
  have hlt : lineage.length < other.length := Nat.lt_of_not_le hlonger
  have hnext := List.getElem?_eq_getElem hlt
  have hmem := List.getElem_mem hlt
  have hforebear := h'.forebear?_eq _ _ hnext
  -- The first language of the longer one behind the end of the other would have ended both.
  rcases h.ends _ hforebear with hnone | hbefore | hmet
  · cases hnone.symm.trans (h'.get?_eq _ hmem)
  · obtain ⟨entry, hentry, hsame⟩ := List.mem_map.mp hbefore
    obtain ⟨steps, hsteps, rfl⟩ := List.getElem_of_mem hentry
    have hown := h.forebear?_eq _ _ (List.getElem?_eq_getElem hsteps)
    have htheirs := h'.forebear?_eq _ _ (List.getElem?_eq_getElem (hsteps.trans hlt))
    have hrepeat : (other.map Prod.fst)[steps]? = (other.map Prod.fst)[lineage.length]? := by
      rw [List.getElem?_map, List.getElem?_map, List.getElem?_eq_getElem (hsteps.trans hlt), hnext,
        Option.map_some, Option.map_some, ← hsame]
      exact htheirs.symm.trans hown
    have hlength : steps < (other.map Prod.fst).length := by simpa using hsteps.trans hlt
    exact absurd ((List.getElem?_inj hlength h'.nodup).mp hrepeat) (Nat.ne_of_lt hsteps)
  · exact h'.notMem_met _ hmem hmet

/-- A language has one lineage. -/
theorem unique (h : IsLineage declared met id lineage) (h' : IsLineage declared met id other) :
    other = lineage := by
  refine List.ext_getElem (Nat.le_antisymm (h.length_le h') (h'.length_le h)) ?_
  intro steps hother hlineage
  have hid : other[steps].1 = lineage[steps].1 :=
    Option.some.inj ((h'.forebear?_eq _ _ (List.getElem?_eq_getElem hother)).symm.trans
      (h.forebear?_eq _ _ (List.getElem?_eq_getElem hlineage)))
  refine Prod.ext hid (Option.some.inj ?_)
  rw [← h'.get?_eq _ (List.getElem_mem hother), ← h.get?_eq _ (List.getElem_mem hlineage), hid]

theorem nil (hstop : id ∈ met ∨ declared.get? id = none) : IsLineage declared met id [] where
  forebear?_eq _ _ h := nomatch h
  get?_eq _ h := nomatch h
  nodup := List.nodup_nil
  notMem_met _ h := nomatch h
  ends next hnext := by
    obtain rfl := Option.some.inj hnext
    exact hstop.elim (.inr ∘ .inr) .inl

theorem single (hmet : id ∉ met) (hget : declared.get? id = some language)
    (hparent : language.parent = none) : IsLineage declared met id [(id, language)] where
  forebear?_eq steps entry h := by
    obtain ⟨rfl, rfl⟩ := by simpa [List.getElem?_eq_some_iff] using h
    rfl
  get?_eq entry h := List.mem_singleton.mp h ▸ hget
  nodup := List.nodup_singleton _
  notMem_met entry h := List.mem_singleton.mp h ▸ hmet
  ends next hnext := by simp [forebear?, hget, hparent] at hnext

/-- A language heads the lineage of its parent, in which it counts as met before. -/
theorem cons (hmet : id ∉ met) (hget : declared.get? id = some language)
    (hparent : language.parent = some parent)
    (h : IsLineage declared (id :: met) parent lineage) :
    IsLineage declared met id ((id, language) :: lineage) where
  forebear?_eq steps entry hentry := by
    cases steps with
    | zero => rw [← Option.some.inj hentry]; rfl
    | succ steps =>
      rw [forebear?_succ_of_parent hget hparent]
      exact h.forebear?_eq steps entry hentry
  get?_eq entry hentry := by
    rcases List.mem_cons.mp hentry with rfl | hlineage
    · exact hget
    · exact h.get?_eq entry hlineage
  nodup := by
    refine List.nodup_cons.mpr ⟨fun hown => ?_, h.nodup⟩
    obtain ⟨entry, hentry, hid⟩ := List.mem_map.mp hown
    exact h.notMem_met entry hentry (hid ▸ List.mem_cons_self)
  notMem_met entry hentry := by
    rcases List.mem_cons.mp hentry with rfl | hlineage
    · exact hmet
    · exact fun hbefore => h.notMem_met entry hlineage (List.mem_cons_of_mem _ hbefore)
  ends next hnext := by
    rw [List.length_cons, forebear?_succ_of_parent hget hparent] at hnext
    rcases h.ends next hnext with hnone | hlineage | hbefore
    · exact .inl hnone
    · exact .inr (.inl (List.mem_cons_of_mem _ hlineage))
    · rcases List.mem_cons.mp hbefore with rfl | hbefore
      · exact .inr (.inl List.mem_cons_self)
      · exact .inr (.inr hbefore)

theorem exists_eq_cons (h : IsLineage declared [] id lineage)
    (hget : declared.get? id = some language) : ∃ rest, lineage = (id, language) :: rest := by
  cases lineage with
  | nil =>
    rcases h.ends id rfl with hnone | hbefore | hmet
    · cases hnone.symm.trans hget
    · cases hbefore
    · cases hmet
  | cons first rest =>
    have hid : id = first.1 := Option.some.inj (h.forebear?_eq 0 first rfl)
    have hfirst := h.get?_eq first List.mem_cons_self
    rw [← hid, hget] at hfirst
    exact ⟨rest, congrArg (· :: rest) (Prod.ext hid.symm (Option.some.inj hfirst.symm))⟩

/-- Off the circles, what stands behind a language in its lineage is that of its parent. -/
theorem tail (h : IsLineage declared [] id ((id, language) :: lineage))
    (hparent : language.parent = some parent) (hcircles : ¬ GoesInCircles declared id) :
    IsLineage declared [] parent lineage := by
  have hget := h.get?_eq _ List.mem_cons_self
  have hstep (steps : Nat) : forebear? declared (steps + 1) id = forebear? declared steps parent :=
    forebear?_succ_of_parent hget hparent
  refine ⟨fun steps entry hentry => ?_, fun entry hentry => ?_, ?_, fun _ _ => List.not_mem_nil,
    fun next hnext => ?_⟩
  · rw [← hstep]
    exact h.forebear?_eq (steps + 1) entry hentry
  · exact h.get?_eq entry (List.mem_cons_of_mem _ hentry)
  · exact (List.nodup_cons.mp h.nodup).2
  · rw [← hstep] at hnext
    rcases h.ends next hnext with hnone | hbefore | hmet
    · exact .inl hnone
    · rcases List.mem_cons.mp hbefore with rfl | hlineage
      · exact absurd ⟨0, _, _, Nat.succ_pos _, rfl, hnext⟩ hcircles
      · exact .inr (.inl hlineage)
    · exact .inr (.inr hmet)

end IsLineage

/-- What comes down a lineage, from its far end. -/
def handedDown (lineage : List (Text × LanguageDeclaration)) : Text → Option (List Text) :=
  lineage.foldr (fun entry inherited => entry.2.merge inherited) fun _ => none

/-! ## Following the parents -/

/-- Following the parents from a language, with some languages met before, ends and gives
these lists. -/
inductive Resolves (declared : Dict LanguageDeclaration) :
    (met : List Text) → (id : Text) → (scopes : ScopeKinds) → Prop where
  | met {met : List Text} {id : Text} (hmet : id ∈ met) : Resolves declared met id []
  | undeclared {met : List Text} {id : Text} (hmet : id ∉ met)
      (hget : declared.get? id = none) : Resolves declared met id []
  | eldest {met : List Text} {id : Text} {language : LanguageDeclaration} (hmet : id ∉ met)
      (hget : declared.get? id = some language) (hparent : language.parent = none) :
      Resolves declared met id (language.extend [])
  | heir {met : List Text} {id parent : Text} {language : LanguageDeclaration}
      {inherited : ScopeKinds} (hmet : id ∉ met)
      (hget : declared.get? id = some language) (hparent : language.parent = some parent)
      (hinherited : Resolves declared (id :: met) parent inherited) :
      Resolves declared met id (language.extend inherited)

/-- The declarations not met yet. -/
def unmet (declared : Dict LanguageDeclaration) (met : List Text) : Dict LanguageDeclaration :=
  declared.filter fun entry => !met.contains entry.1

/-- Meeting a declared language leaves fewer. -/
theorem length_unmet_cons_lt (hmet : id ∉ met) (hget : declared.get? id = some language) :
    (unmet declared (id :: met)).length < (unmet declared met).length := by
  have hfilter : unmet declared (id :: met) =
      (unmet declared met).filter fun entry => !entry.1 == id := by
    rw [unmet, unmet, List.filter_filter]
    refine List.filter_congr fun entry _ => ?_
    rw [List.contains_cons, Bool.not_or]
  rw [hfilter]
  refine List.length_filter_lt_length_iff_exists.mpr ⟨(id, language), ?_, by simp⟩
  refine List.mem_filter.mpr ⟨Dict.mem_of_get?_eq_some hget, ?_⟩
  simpa using hmet

/-- More steps than there are declarations not met yet are enough to follow the parents to the
end. -/
theorem resolves_resolveWithin {steps : Nat} (hsteps : (unmet declared met).length < steps) :
    Resolves declared met id (resolveWithin declared steps met id) := by
  induction steps generalizing met id with
  | zero => exact absurd hsteps (Nat.not_lt_zero _)
  | succ steps ih =>
    rw [resolveWithin]
    by_cases hmet : met.contains id = true
    · rw [if_pos hmet]
      exact .met (List.contains_iff_mem.mp hmet)
    · rw [if_neg hmet]
      have hmet : id ∉ met := fun hmem => hmet (List.contains_iff_mem.mpr hmem)
      cases hget : declared.get? id with
      | none => exact .undeclared hmet hget
      | some language =>
        cases hparent : language.parent with
        | none => simpa only [hparent] using .eldest hmet hget hparent
        | some parent =>
          have hfewer := length_unmet_cons_lt hmet hget
          simpa only [hparent] using .heir hmet hget hparent (ih (by omega))

theorem resolves_resolve (declared : Dict LanguageDeclaration) (id : Text) :
    Resolves declared [] id (resolve declared id) :=
  resolves_resolveWithin (Nat.lt_succ_of_le (List.length_filter_le _ _))

/-- What following the parents gives has come down a lineage. -/
theorem Resolves.exists_handedDown (hlists : ∀ entry ∈ declared, entry.2.ListsOnce)
    (h : Resolves declared met id scopes) :
    ∃ lineage, IsLineage declared met id lineage ∧ scopes.get? = handedDown lineage := by
  induction h with
  | met hmet => exact ⟨[], .nil (.inl hmet), rfl⟩
  | undeclared hmet hget => exact ⟨[], .nil (.inr hget), rfl⟩
  | eldest hmet hget hparent =>
    refine ⟨_, .single hmet hget hparent, ?_⟩
    exact get?_extend (hlists _ (Dict.mem_of_get?_eq_some hget)) []
  | heir hmet hget hparent _ ih =>
    obtain ⟨lineage, hlineage, hinherited⟩ := ih
    refine ⟨_, .cons hmet hget hparent hlineage, ?_⟩
    rw [get?_extend (hlists _ (Dict.mem_of_get?_eq_some hget)), hinherited]
    rfl

/-- Off the circles, a language inherits just what its parent lists. -/
theorem get?_resolve_of_parent (hlists : ∀ entry ∈ declared, entry.2.ListsOnce)
    (hget : declared.get? id = some language) (hparent : language.parent = some parent)
    (hcircles : ¬ GoesInCircles declared id) :
    (resolve declared id).get? = language.merge (resolve declared parent).get? := by
  obtain ⟨lineage, hlineage, hdown⟩ := (resolves_resolve declared id).exists_handedDown hlists
  obtain ⟨rest, rfl⟩ := hlineage.exists_eq_cons hget
  obtain ⟨above, habove, hinherited⟩ :=
    (resolves_resolve declared parent).exists_handedDown hlists
  obtain rfl := (hlineage.tail hparent hcircles).unique habove
  rw [hdown, hinherited]
  rfl

/-! ## Declarations that are read -/

theorem exists_of_dict? {α : Type} {value? : Json → Option α} {j : Json} {d : Dict α}
    (h : Json.dict? value? j = some d) :
    d.Ascends ∧ ∀ entry ∈ d, ∃ j', value? j' = some entry.2 := by
  rw [Json.dict?] at h
  obtain ⟨members, -, h⟩ := Option.bind_eq_some_iff.mp h
  obtain ⟨entries, hentries, h⟩ := Option.bind_eq_some_iff.mp h
  obtain rfl := Option.some.inj h
  refine ⟨Dict.ascends_ofEntries entries, fun entry hentry => ?_⟩
  obtain ⟨member, -, hmember⟩ :=
    exists_of_mem_of_mapM hentries (Dict.mem_of_mem_ofEntries hentry)
  obtain ⟨value, hvalue, rfl⟩ := Option.map_eq_some_iff.mp hmember
  exact ⟨member.2, hvalue⟩

theorem ascends_of_defaulted? {α : Type} {value? : Json → Option α} {j : Option Json} {d : Dict α}
    (h : Json.defaulted? (Json.dict? value?) [] j = some d) : d.Ascends := by
  cases j with
  | none => exact Option.some.inj h ▸ List.Pairwise.nil
  | some j => exact (exists_of_dict? h).1

theorem listsOnce_of_ofJson? {j : Json} (h : ofJson? j = some language) : language.ListsOnce := by
  unfold ofJson? at h
  obtain ⟨fields, -, h⟩ := Option.bind_eq_some_iff.mp h
  split at h
  · obtain ⟨parent, -, h⟩ := Option.bind_eq_some_iff.mp h
    obtain ⟨extensions, -, h⟩ := Option.bind_eq_some_iff.mp h
    obtain ⟨scopes, hscopes, h⟩ := Option.bind_eq_some_iff.mp h
    obtain ⟨overrides, hoverrides, h⟩ := Option.bind_eq_some_iff.mp h
    obtain rfl := Option.some.inj h
    exact ⟨ascends_of_defaulted? hscopes, ascends_of_defaulted? hoverrides⟩
  · cases h

end LanguageDeclaration

namespace LanguageTable

open LanguageDeclaration

variable {version id : Text} {declared : Dict LanguageDeclaration} {table : LanguageTable}

theorem listsOnce_of_declarations? {j : Json} (h : declarations? j = some (version, declared)) :
    ∀ entry ∈ declared, entry.2.ListsOnce := by
  unfold declarations? at h
  obtain ⟨fields, -, h⟩ := Option.bind_eq_some_iff.mp h
  split at h
  · obtain ⟨_, -, h⟩ := Option.bind_eq_some_iff.mp h
    obtain ⟨_, hdeclared, h⟩ := Option.bind_eq_some_iff.mp h
    obtain ⟨-, rfl⟩ := Prod.mk.inj (Option.some.inj h)
    intro entry hentry
    obtain ⟨j', hj'⟩ := (exists_of_dict? hdeclared).2 entry hentry
    exact listsOnce_of_ofJson? hj'
  · cases h

/-- The languages of a table are the declared ones, each with its lists settled. -/
theorem map_scopes_language? (h : ofDeclarations version declared = .ok table) (id : Text) :
    (table.language? id).map (·.scopes) = (declared.get? id).map fun _ => resolve declared id := by
  rw [ofDeclarations] at h
  split_ifs at h
  obtain rfl := Except.ok.inj h
  rw [language?, List.find?_map, Option.map_map, Dict.get?_eq_find?, Option.map_map]
  refine Option.map_congr fun entry hentry => congrArg (resolve declared) ?_
  have hid := List.find?_some hentry
  exact eq_of_beq hid

/-- The lists of a language are those its lineage hands down to it. -/
structure Inherits (table : LanguageTable) (declared : Dict LanguageDeclaration) (id : Text)
    (declaration : LanguageDeclaration) (language : Language) : Prop where
  /-- Following the parents comes to an end, at the language's lists. -/
  resolves : Resolves declared [] id language.scopes
  handedDown : ∃ lineage, IsLineage declared [] id lineage ∧
    (∀ other, IsLineage declared [] id other → other = lineage) ∧
    ∀ scope, language.scopes.get? scope = handedDown lineage scope
  /-- Off the circles, it is the parent's own lists that are inherited. -/
  merge : ¬ GoesInCircles declared id →
    ∀ parent above, declaration.parent = some parent → table.language? parent = some above →
      ∀ scope, language.scopes.get? scope = declaration.merge above.scopes.get? scope
  /-- Off the circles, a language that overrides nothing accepts what its parent does. -/
  accepts : ¬ GoesInCircles declared id →
    ∀ parent above, declaration.parent = some parent → table.language? parent = some above →
      declaration.overrides = [] →
      (∀ scope, ∀ kind ∈ above.kinds scope, kind ∈ language.kinds scope) ∧
      ∀ keyword kind, (table.kindSet (some parent) keyword [] []).contains kind = true →
        (table.kindSet (some id) keyword [] []).contains kind = true

/-- Without modifiers a language accepts the kinds it lists. -/
theorem contains_kindSet_of_language? {language : Language} (h : table.language? id = some language)
    (keyword : Construct.Keyword) (kind : Text) :
    (table.kindSet (some id) keyword [] []).contains kind = true ↔
      kind ∈ language.kinds keyword.name := by
  rw [contains_kindSet_iff, Accepts, Option.bind_some, h]
  simp

theorem inherits_of_ofDeclarations (hlists : ∀ entry ∈ declared, entry.2.ListsOnce)
    (htable : ofDeclarations version declared = .ok table) {declaration : LanguageDeclaration}
    (hget : declared.get? id = some declaration) :
    ∃ language, table.language? id = some language ∧
      table.Inherits declared id declaration language := by
  have hsettled := map_scopes_language? htable id
  rw [hget] at hsettled
  obtain ⟨language, hlanguage, hscopes⟩ := Option.map_eq_some_iff.mp hsettled
  change language.scopes = resolve declared id at hscopes
  have hmerge (hcircles : ¬ GoesInCircles declared id) (parent : Text) (above : Language)
      (hparent : declaration.parent = some parent) (habove : table.language? parent = some above) :
      language.scopes.get? = declaration.merge above.scopes.get? := by
    have hparents := map_scopes_language? htable parent
    rw [habove] at hparents
    obtain ⟨-, -, hown⟩ := Option.map_eq_some_iff.mp hparents.symm
    change resolve declared parent = above.scopes at hown
    rw [hscopes, ← hown, get?_resolve_of_parent hlists hget hparent hcircles]
  obtain ⟨lineage, hlineage, hdown⟩ := (resolves_resolve declared id).exists_handedDown hlists
  refine ⟨language, hlanguage, ?_, ⟨lineage, hlineage, fun _ => hlineage.unique, ?_⟩, ?_, ?_⟩
  · exact hscopes ▸ resolves_resolve declared id
  · exact congrFun (hscopes ▸ hdown)
  · exact fun hcircles parent above hparent habove =>
      congrFun (hmerge hcircles parent above hparent habove)
  · intro hcircles parent above hparent habove hoverrides
    have hkinds (scope kind : Text) (hkind : kind ∈ above.kinds scope) :
        kind ∈ language.kinds scope := by
      rw [Language.kinds, hmerge hcircles parent above hparent habove]
      exact mem_merge_of_mem hoverrides hkind
    refine ⟨hkinds, fun keyword kind hkind => ?_⟩
    rw [contains_kindSet_of_language? habove] at hkind
    rw [contains_kindSet_of_language? hlanguage]
    exact hkinds _ kind hkind

/-- Whatever table is read, its languages list what their lineages hand down. -/
theorem inherits_parse {t : Text}
    (h : (Json.parse? t).bind declarations? = some (version, declared)) :
    (declared = [] ∧ parse t = .error (.languageTable "no languages defined".toList)) ∨
      ∃ table, parse t = .ok table ∧ table.version = version ∧
        ∀ id declaration, declared.get? id = some declaration →
          ∃ language, table.language? id = some language ∧
            table.Inherits declared id declaration language := by
  obtain ⟨j, -, hj⟩ := Option.bind_eq_some_iff.mp h
  have hlists := listsOnce_of_declarations? hj
  have hparse : parse t = ofDeclarations version declared := by rw [parse, h]
  rw [hparse]
  cases hdeclared : declared with
  | nil => exact .inl ⟨rfl, rfl⟩
  | cons first rest =>
    rw [hdeclared] at hlists
    exact .inr ⟨_, rfl, rfl, fun id declaration hget => inherits_of_ofDeclarations hlists rfl hget⟩

/-- Two languages on a circle, one that leads into it, and two that have no part in it. -/
def circularTable : Text :=
  "\x7b\"version\":\"1\",\"languages\":\x7b".toList ++
    "\"a\":\x7b\"extends\":\"b\",\"scopes\":\x7b\"f\":[\"x\"]\x7d\x7d,".toList ++
    "\"b\":\x7b\"extends\":\"a\",\"overrides\":\x7b\"f\":[\"z\"]\x7d\x7d,".toList ++
    "\"c\":\x7b\"extends\":\"a\",\"scopes\":\x7b\"f\":[\"w\",\"x\",\"w\"]\x7d\x7d,".toList ++
    "\"d\":\x7b\"extends\":\"e\",\"scopes\":\x7b\"f\":[\"p\",\"q\"]\x7d\x7d,".toList ++
    "\"e\":\x7b\"scopes\":\x7b\"f\":[\"p\"]\x7d\x7d\x7d\x7d".toList

def circularDeclarations : Dict LanguageDeclaration :=
  [("a".toList, ⟨some "b".toList, [], [("f".toList, ["x".toList])], []⟩),
    ("b".toList, ⟨some "a".toList, [], [], [("f".toList, ["z".toList])]⟩),
    ("c".toList, ⟨some "a".toList, [], [("f".toList, ["w".toList, "x".toList, "w".toList])], []⟩),
    ("d".toList, ⟨some "e".toList, [], [("f".toList, ["p".toList, "q".toList])], []⟩),
    ("e".toList, ⟨none, [], [("f".toList, ["p".toList])], []⟩)]

theorem not_goesInCircles_circularDeclarations :
    ¬ GoesInCircles circularDeclarations "d".toList := by
  rintro ⟨earlier, later, ancestor, hlt, hearlier, hlater⟩
  have hget : circularDeclarations.get? "d".toList =
      some ⟨some "e".toList, [], [("f".toList, ["p".toList, "q".toList])], []⟩ := by
    decide +kernel
  have htop : circularDeclarations.get? "e".toList =
      some ⟨none, [], [("f".toList, ["p".toList])], []⟩ := by decide +kernel
  -- Only one step can be taken.
  match later with
  | 0 => exact Nat.not_lt_zero _ hlt
  | 1 =>
    obtain rfl : earlier = 0 := Nat.lt_one_iff.mp hlt
    obtain rfl := Option.some.inj hearlier
    rw [forebear?, hget] at hlater
    cases Option.some.inj hlater
  | steps + 2 =>
    rw [forebear?, hget, Option.bind_some, Option.bind_some, forebear?, htop] at hlater
    cases hlater

theorem inherits_parse_circular :
    (Json.parse? circularTable).bind declarations? = some ("1".toList, circularDeclarations) ∧
      (resolve circularDeclarations "c".toList).get? "f".toList =
        some ["z".toList, "x".toList, "w".toList] ∧
      ∃ table, parse circularTable = .ok table ∧ table.version = "1".toList ∧
        (∀ id declaration, circularDeclarations.get? id = some declaration →
          ∃ language, table.language? id = some language ∧
            table.Inherits circularDeclarations id declaration language) ∧
        ∃ child parent, table.language? "d".toList = some child ∧
          table.language? "e".toList = some parent ∧
          ∀ scope, ∀ kind ∈ parent.kinds scope, kind ∈ child.kinds scope := by
  have hread : (Json.parse? circularTable).bind declarations? =
      some ("1".toList, circularDeclarations) := by decide +kernel
  refine ⟨hread, by decide +kernel, ?_⟩
  rcases inherits_parse hread with ⟨hempty, -⟩ | ⟨table, htable, hversion, hinherits⟩
  · cases hempty
  · obtain ⟨child, hchild, hinherited⟩ := hinherits "d".toList
      ⟨some "e".toList, [], [("f".toList, ["p".toList, "q".toList])], []⟩ (by decide +kernel)
    obtain ⟨parent, hparent, -⟩ := hinherits "e".toList
      ⟨none, [], [("f".toList, ["p".toList])], []⟩ (by decide +kernel)
    exact ⟨table, htable, hversion, hinherits, child, parent, hchild, hparent,
      (hinherited.accepts not_goesInCircles_circularDeclarations _ parent rfl hparent rfl).1⟩

end LanguageTable

end LineGuard
