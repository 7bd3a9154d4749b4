import Mathlib.Data.Prod.Lex
import Mathlib.Order.OrderDual
import WaterStructure.Core.MappingLoad
import WaterStructure.Library.ReorderedLoop
import WaterStructure.Library.RunningBest

/-!
# Choosing a Java state

The candidates of a name are walked once, keeping the best so far. Their place in the conversion order is
looked up only when two of them agree in everything else, and is then kept with the candidate. The answer
is that of the registry without such a memory, for any order of the candidates and of the hash maps.
-/

namespace WaterStructure

/-- `JavaCandidate`, with the order that it may have cached. -/
structure CachedCandidate extends JavaCandidate where
  order : Option ℕ := none

/-- A registry with its candidates as they stand in memory. -/
structure CachedRegistry where
  registry : MappingRegistry
  candidates : AList fun _ : List Char => List CachedCandidate

/-- How the hash maps of the legacy states and of properties are walked. -/
structure HashWalk where
  properties : List (List Char × List Char) → List (List Char × List Char)
  states : List (List Char × RuntimeId) → List (List Char × RuntimeId)
  properties_perm : ∀ entries, (properties entries).Perm entries
  states_perm : ∀ entries, (states entries).Perm entries

namespace CachedRegistry

/-- The place in the conversion order, looked up and kept, or as it was kept. -/
def candidateOrder (registry : MappingRegistry) (candidates : List CachedCandidate) (index : ℕ) :
    ℕ × List CachedCandidate :=
  match candidates[index]? with
  | none => (sizeMax, candidates)
  | some candidate =>
    match candidate.order with
    | some order => (order, candidates)
    | none =>
      let order := (registry.javaOrder.lookup (canonicalJavaOrderKey candidate.encoded)).getD sizeMax
      (order, candidates.set index { candidate with order := some order })

/-- The variables of the loop over the candidates; the best one is given by its index. -/
structure Scan where
  candidates : List CachedCandidate
  best : Option ℕ := none
  same : ℕ := 0
  penalty : ℕ := sizeMax

/-- A tie in the properties: the orders decide, then the ids. -/
def scanTie (registry : MappingRegistry) (scan : Scan) (index best : ℕ) (candidate : CachedCandidate) : Scan :=
  let own := candidateOrder registry scan.candidates index
  let other := candidateOrder registry own.2 best
  let bestId := (other.2[best]?.map fun candidate => candidate.runtimeId).getD 0
  if own.1 < other.1 ∨ own.1 = other.1 ∧ candidate.runtimeId < bestId then
    { scan with candidates := other.2, best := some index }
  else { scan with candidates := other.2 }

/-- One turn of the loop. -/
def scanTurn (registry : MappingRegistry) (requested : List (List Char × List Char)) (scan : Scan)
    (index : ℕ) : Scan :=
  match scan.candidates[index]? with
  | none => scan
  | some candidate =>
    let score := scoreProperties fuzzyJavaEqual requested candidate.properties
    match scan.best with
    | none => { scan with best := some index, same := score.1, penalty := score.2 }
    | some best =>
      if score.1 > scan.same ∨ score.1 = scan.same ∧ score.2 < scan.penalty then
        { scan with best := some index, same := score.1, penalty := score.2 }
      else if score.1 = scan.same ∧ score.2 = scan.penalty then scanTie registry scan index best candidate
      else scan

def scan (registry : MappingRegistry) (requested : List (List Char × List Char))
    (candidates : List CachedCandidate) : Scan :=
  (List.range candidates.length).foldl (scanTurn registry requested) { candidates }

/-- The score of a legacy state, with its properties and the requested ones walked in some order. -/
def walkedScore (walk : HashWalk) (registry : MappingRegistry) (name : List Char)
    (requested : List (List Char × List Char)) (candidate : List Char × RuntimeId) : CandidateScore :=
  let score := scoreProperties (fun value other => fuzzyJavaValue value = fuzzyJavaValue other)
    (walk.properties requested) (walk.properties (parseLegacyProperties candidate.1))
  { same := score.1
    penalty := score.2
    order := ((registry.legacyStateOrder.lookup name).bind (·.lookup candidate.1)).getD sizeMax
    runtimeId := candidate.2 }

/-- The loop over the legacy states. -/
def scanLegacy (walk : HashWalk) (registry : MappingRegistry) (name : List Char)
    (requested : List (List Char × List Char)) : Option RuntimeId :=
  ((registry.legacyByState.lookup name).bind fun states =>
    CandidateScore.best ((walk.states (states.entries.map fun entry => (entry.1, entry.2))).map
      (walkedScore walk registry name requested))).map (·.runtimeId)

/-- `compatible_java_runtime_id`, with what it leaves in the candidates. -/
def compatibleJavaRuntimeId (walk : HashWalk) (cached : CachedRegistry) (blockState : List Char) :
    Option RuntimeId × CachedRegistry :=
  let registry := cached.registry
  let requested := normalizeJavaState blockState
  let name := javaName requested
  let properties := javaProperties requested
  match registry.javaRoundTripMapping.lookup requested with
  | some runtimeId => (some runtimeId, cached)
  | none =>
    match if properties.isEmpty then registry.javaDefaultByName.lookup name else none with
    | some runtimeId => (some runtimeId, cached)
    | none =>
      match registry.javaMapping.lookup requested with
      | some runtimeId => (some runtimeId, cached)
      | none =>
        match cached.candidates.lookup name with
        | none => (scanLegacy walk registry name properties, cached)
        | some candidates =>
          let scan := scan registry properties candidates
          let cached := { cached with candidates := cached.candidates.insert name scan.candidates }
          match scan.best with
          | some best => (scan.candidates[best]?.map fun candidate => candidate.runtimeId, cached)
          | none => (scanLegacy walk registry name properties, cached)

/-- Nothing has been asked of the candidates that loading has made, in some order. -/
def Fresh (registry : MappingRegistry) (candidates : AList fun _ : List Char => List CachedCandidate) : Prop :=
  ∀ name, ((candidates.lookup name).getD []).Perm
    (((registry.javaCandidatesByName.lookup name).getD []).map fun candidate => ⟨candidate, none⟩)

/-- The registries that callers can have made, by registering states, loading assets and asking for
compatible states. A load that succeeds replaces the candidates. -/
inductive Reachable : CachedRegistry → Prop
  | initial : Reachable ⟨MappingRegistry.initial, ∅⟩
  | register (state : BlockState) {cached : CachedRegistry} (h : Reachable cached) :
    Reachable { cached with registry := (cached.registry.register state).2 }
  | loadPool (file : AssetFile) (poolId : ℕ) {cached : CachedRegistry} (h : Reachable cached) :
    Reachable { cached with registry := (cached.registry.loadLegacyPool file poolId).2 }
  | loadFailed (assets : MappingAssets) {error : String} {cached : CachedRegistry} (h : Reachable cached)
    (hfailed : (cached.registry.loadBlockMappings assets).1 = .error error) :
    Reachable { cached with registry := (cached.registry.loadBlockMappings assets).2 }
  | load (assets : MappingAssets) {cached : CachedRegistry} (h : Reachable cached)
    (hloaded : (cached.registry.loadBlockMappings assets).1 = .ok ())
    (candidates : AList fun _ : List Char => List CachedCandidate)
    (hfresh : Fresh (cached.registry.loadBlockMappings assets).2 candidates) :
    Reachable ⟨(cached.registry.loadBlockMappings assets).2, candidates⟩
  | ask (walk : HashWalk) (blockState : List Char) {cached : CachedRegistry} (h : Reachable cached) :
    Reachable (compatibleJavaRuntimeId walk cached blockState).2

end CachedRegistry

section Scores

open OrderDual

/-- What the candidates are ordered by. -/
def CandidateScore.key (score : CandidateScore) : ℕᵒᵈ ×ₗ ℕ ×ₗ ℕ ×ₗ ℕ :=
  toLex (toDual score.same, toLex (score.penalty, toLex (score.order, score.runtimeId.toNat)))

theorem CandidateScore.key_injective : Function.Injective CandidateScore.key := by
  rintro ⟨same, penalty, order, runtimeId⟩ ⟨same', penalty', order', runtimeId'⟩ h
  obtain ⟨rfl, h⟩ := Prod.ext_iff.mp (toLex.injective h)
  obtain ⟨rfl, h⟩ := Prod.ext_iff.mp (toLex.injective h)
  obtain ⟨rfl, h⟩ := Prod.ext_iff.mp (toLex.injective h)
  obtain rfl := UInt32.toNat_inj.mp h
  rfl

theorem CandidateScore.better_iff (first second : CandidateScore) :
    first.better second = true ↔ first.key < second.key := by
  rw [better, decide_eq_true_eq, key, key, Prod.Lex.toLex_lt_toLex, Prod.Lex.toLex_lt_toLex,
    Prod.Lex.toLex_lt_toLex]
  rfl

theorem CandidateScore.best_eq (scores : List CandidateScore) :
    CandidateScore.best scores = RunningBest.best CandidateScore.key scores := by
  rw [best, RunningBest.best]
  congr 1
  funext best score
  cases best with
  | none => rfl
  | some old => simp only [RunningBest.step, better_iff]

/-- The best score beats every other, or is as good. -/
theorem CandidateScore.exists_best {scores : List CandidateScore} (hne : scores ≠ []) :
    ∃ found ∈ scores, CandidateScore.best scores = some found ∧
      ∀ score ∈ scores, ¬ score.better found = true := by
  obtain ⟨found, hmem, hfound, hall⟩ := @RunningBest.exists_best _ _ _ CandidateScore.key _ hne
  refine ⟨found, hmem, (best_eq scores).trans hfound, fun score hscore hbetter => ?_⟩
  exact absurd ((better_iff score found).mp hbetter) (not_lt_of_ge (hall score hscore))

theorem CandidateScore.best_perm {scores scores' : List CandidateScore} (h : scores.Perm scores') :
    CandidateScore.best scores = CandidateScore.best scores' := by
  rw [best_eq, best_eq]
  exact RunningBest.best_perm CandidateScore.key_injective h

end Scores

namespace CachedRegistry

section Scanning

variable {registry : MappingRegistry} {requested : List (List Char × List Char)}

/-- The orders that are kept are those of the registry. -/
def Right (registry : MappingRegistry) (candidates : List CachedCandidate) : Prop :=
  ∀ candidate ∈ candidates, ∀ order ∈ candidate.order,
    order = (registry.javaOrder.lookup (canonicalJavaOrderKey candidate.encoded)).getD sizeMax

/-- The candidates without what is kept. -/
def plain (candidates : List CachedCandidate) : List JavaCandidate :=
  candidates.map CachedCandidate.toJavaCandidate

theorem getElem?_plain (candidates : List CachedCandidate) (index : ℕ) :
    (plain candidates)[index]? = candidates[index]?.map CachedCandidate.toJavaCandidate :=
  List.getElem?_map

/-- Asking for an order gives that of the registry, and changes nothing but what is kept. -/
theorem candidateOrder_spec {candidates : List CachedCandidate} (h : Right registry candidates) {index : ℕ}
    {candidate : JavaCandidate} (hget : (plain candidates)[index]? = some candidate) :
    (candidateOrder registry candidates index).1 = (registry.javaScore requested candidate).order ∧
      Right registry (candidateOrder registry candidates index).2 ∧
      plain (candidateOrder registry candidates index).2 = plain candidates := by
  rw [getElem?_plain] at hget
  obtain ⟨cached, hcached, rfl⟩ := Option.map_eq_some_iff.mp hget
  rw [candidateOrder, hcached]
  dsimp only
  split
  case h_1 order horder =>
    exact ⟨h cached (List.mem_of_getElem? hcached) order horder, h, rfl⟩
  case h_2 =>
    refine ⟨rfl, fun other hother order horder => ?_, ?_⟩
    · rcases List.mem_or_eq_of_mem_set hother with hmem | rfl
      · exact h other hmem order horder
      · exact (Option.some.inj horder).symm
    · refine List.ext_getElem? fun place => ?_
      rw [getElem?_plain, getElem?_plain, List.getElem?_set]
      split
      case isTrue hplace =>
        subst hplace
        rw [hcached]
        split_ifs with hlength
        · rfl
        · exact absurd (List.getElem?_eq_some_iff.mp hcached).1 hlength
      case isFalse => rfl

/-- What the loop has found among the first candidates. -/
structure ScanInv (registry : MappingRegistry) (requested : List (List Char × List Char))
    (start : List JavaCandidate) (turns : ℕ) (scan : Scan) : Prop where
  right : Right registry scan.candidates
  plain_eq : plain scan.candidates = start
  unset : scan.best = none → CandidateScore.best ((start.take turns).map (registry.javaScore requested)) = none
  set : ∀ best, scan.best = some best → ∃ candidate, start[best]? = some candidate ∧
    CandidateScore.best ((start.take turns).map (registry.javaScore requested)) =
      some (registry.javaScore requested candidate) ∧
    scan.same = (registry.javaScore requested candidate).same ∧
    scan.penalty = (registry.javaScore requested candidate).penalty

/-- One more candidate, as the scores see it. -/
theorem best_take_succ {start : List JavaCandidate} {turns : ℕ} {candidate : JavaCandidate}
    (hget : start[turns]? = some candidate) :
    CandidateScore.best ((start.take (turns + 1)).map (registry.javaScore requested)) =
      match CandidateScore.best ((start.take turns).map (registry.javaScore requested)) with
      | none => some (registry.javaScore requested candidate)
      | some old => some (if (registry.javaScore requested candidate).better old then
          registry.javaScore requested candidate else old) := by
  rw [List.take_add_one, hget, Option.toList_some, List.map_append, List.map_singleton, CandidateScore.best,
    List.foldl_append, List.foldl_cons, List.foldl_nil]
  rfl

variable {score old : CandidateScore}

/-- Between scores that agree in the properties, the orders and then the ids decide. -/
theorem better_of_tie (hsame : score.same = old.same) (hpenalty : score.penalty = old.penalty) :
    score.better old = true ↔
      score.order < old.order ∨ score.order = old.order ∧ score.runtimeId < old.runtimeId := by
  rw [CandidateScore.better, decide_eq_true_eq, hsame, hpenalty]
  simp

theorem scanTie_spec {scan : Scan} (hright : Right registry scan.candidates) {index best : ℕ}
    {candidate : CachedCandidate} {old : JavaCandidate}
    (hget : (plain scan.candidates)[index]? = some candidate.toJavaCandidate)
    (hold : (plain scan.candidates)[best]? = some old)
    (hsame : (registry.javaScore requested candidate.toJavaCandidate).same =
      (registry.javaScore requested old).same)
    (hpenalty : (registry.javaScore requested candidate.toJavaCandidate).penalty =
      (registry.javaScore requested old).penalty) :
    Right registry (scanTie registry scan index best candidate).candidates ∧
      plain (scanTie registry scan index best candidate).candidates = plain scan.candidates ∧
      (scanTie registry scan index best candidate).same = scan.same ∧
      (scanTie registry scan index best candidate).penalty = scan.penalty ∧
      (scanTie registry scan index best candidate).best =
        if (registry.javaScore requested candidate.toJavaCandidate).better (registry.javaScore requested old)
        then some index else scan.best := by
  obtain ⟨hown, hright', hplain⟩ := @candidateOrder_spec registry requested _ hright index _ hget
  obtain ⟨hother, hright'', hplain'⟩ := @candidateOrder_spec registry requested _ hright' best old
    (hplain.symm ▸ hold)
  have hid : ((candidateOrder registry (candidateOrder registry scan.candidates index).2 best).2[best]?.map
      fun candidate => candidate.runtimeId) = some old.runtimeId := by
    have hshown : (plain (candidateOrder registry (candidateOrder registry scan.candidates index).2 best).2)[best]?.map
        JavaCandidate.runtimeId = some old.runtimeId := by
      rw [hplain', hplain, hold, Option.map_some]
    rw [getElem?_plain, Option.map_map] at hshown
    exact hshown
  have hbetter := better_of_tie hsame hpenalty
  rw [scanTie, hown, hother, hid, Option.getD_some]
  split
  case isTrue hwins =>
    rw [if_pos (hbetter.mpr hwins)]
    exact ⟨hright'', hplain'.trans hplain, rfl, rfl, rfl⟩
  case isFalse hloses =>
    rw [if_neg fun hwins => hloses (hbetter.mp hwins)]
    exact ⟨hright'', hplain'.trans hplain, rfl, rfl, rfl⟩

/-- The properties decide when they differ. -/
theorem better_of_ne (h : ¬ (score.same = old.same ∧ score.penalty = old.penalty)) :
    score.better old = true ↔
      score.same > old.same ∨ score.same = old.same ∧ score.penalty < old.penalty := by
  rw [CandidateScore.better, decide_eq_true_eq]
  refine or_congr_right (and_congr_right fun hsame => ?_)
  rw [or_iff_left fun htie => h ⟨hsame, htie.1⟩]

/-- One turn. -/
theorem scanTurn_inv {start : List JavaCandidate} {turns : ℕ} {scan : Scan}
    (h : ScanInv registry requested start turns scan) (hlt : turns < start.length) :
    ScanInv registry requested start (turns + 1) (scanTurn registry requested scan turns) := by
  obtain ⟨candidate, hstart⟩ : ∃ candidate, start[turns]? = some candidate :=
    ⟨_, List.getElem?_eq_getElem hlt⟩
  have hplain := hstart
  rw [← h.plain_eq, getElem?_plain] at hplain
  obtain ⟨cached, hcached, hcandidate⟩ := Option.map_eq_some_iff.mp hplain
  rw [← hcandidate] at hstart
  have hnext := @best_take_succ registry requested _ _ _ hstart
  rw [scanTurn, hcached]
  dsimp only
  have hscore : scoreProperties fuzzyJavaEqual requested cached.properties =
      ((registry.javaScore requested cached.toJavaCandidate).same,
        (registry.javaScore requested cached.toJavaCandidate).penalty) := rfl
  rw [hscore]
  cases hbest : scan.best with
  | none =>
    rw [h.unset hbest] at hnext
    refine ⟨h.right, h.plain_eq, nofun, fun best heq => ?_⟩
    cases heq
    exact ⟨_, hstart, hnext, rfl, rfl⟩
  | some best =>
    obtain ⟨old, hold, hfound, hsame, hpenalty⟩ := h.set best hbest
    rw [hfound] at hnext
    dsimp only at hnext ⊢
    rw [hsame, hpenalty]
    by_cases htie : (registry.javaScore requested cached.toJavaCandidate).same =
        (registry.javaScore requested old).same ∧
        (registry.javaScore requested cached.toJavaCandidate).penalty =
          (registry.javaScore requested old).penalty
    · have hequal : ¬ ((registry.javaScore requested cached.toJavaCandidate).same >
          (registry.javaScore requested old).same ∨
          (registry.javaScore requested cached.toJavaCandidate).same =
            (registry.javaScore requested old).same ∧
          (registry.javaScore requested cached.toJavaCandidate).penalty <
            (registry.javaScore requested old).penalty) := by
        omega
      rw [if_neg hequal, if_pos htie]
      obtain ⟨hright, hkept, hsame', hpenalty', hchosen⟩ := @scanTie_spec registry requested scan h.right
        turns best cached old (by rw [h.plain_eq, hstart]) (by rw [h.plain_eq, hold]) htie.1 htie.2
      refine ⟨hright, hkept.trans h.plain_eq, fun hnone => ?_, fun found heq => ?_⟩
      · rw [hchosen, hbest] at hnone
        split at hnone <;> cases hnone
      · rw [hchosen, hbest] at heq
        rw [hnext, hsame', hpenalty', hsame, hpenalty]
        split_ifs at heq with hwins
        · cases heq
          exact ⟨_, hstart, by rw [if_pos hwins], htie.1.symm, htie.2.symm⟩
        · cases heq
          exact ⟨old, hold, by rw [if_neg hwins], rfl, rfl⟩
    · have hbetter := better_of_ne htie
      by_cases hwins : (registry.javaScore requested cached.toJavaCandidate).better
          (registry.javaScore requested old) = true
      · rw [if_pos (hbetter.mp hwins)]
        rw [if_pos hwins] at hnext
        refine ⟨h.right, h.plain_eq, nofun, fun found heq => ?_⟩
        cases heq
        exact ⟨_, hstart, hnext, rfl, rfl⟩
      · rw [if_neg fun hfirst => hwins (hbetter.mpr hfirst), if_neg htie]
        rw [if_neg hwins] at hnext
        refine ⟨h.right, h.plain_eq, fun hnone => ?_, fun found heq => ?_⟩
        · rw [hbest] at hnone
          cases hnone
        · rw [hbest] at heq
          cases heq
          exact ⟨old, hold, hnext, hsame, hpenalty⟩

/-- The loop finds the best candidate. -/
theorem scan_inv {candidates : List CachedCandidate} (hright : Right registry candidates) :
    ScanInv registry requested (plain candidates) candidates.length (scan registry requested candidates) := by
  have hlength : (plain candidates).length = candidates.length := List.length_map _
  suffices hall : ∀ turns ≤ candidates.length, ScanInv registry requested (plain candidates) turns
      ((List.range turns).foldl (scanTurn registry requested) { candidates }) from hall _ le_rfl
  intro turns
  induction turns with
  | zero => exact fun _ => ⟨hright, rfl, fun _ => rfl, nofun⟩
  | succ turns ih =>
    intro hle
    rw [List.range_succ, List.foldl_append, List.foldl_cons, List.foldl_nil]
    exact scanTurn_inv (ih (Nat.le_of_succ_le hle)) (hlength.symm ▸ hle)

end Scanning

section Walking

variable {registry : MappingRegistry}

/-- Of properties with one name the first is kept. -/
theorem nodup_keepFirst (entries kept : List (List Char × List Char)) (h : (kept.map Prod.fst).Nodup) :
    ((entries.foldl (fun properties property =>
      if properties.any (·.1 = property.1) then properties else properties ++ [property]) kept).map
        Prod.fst).Nodup := by
  induction entries generalizing kept with
  | nil => exact h
  | cons entry rest ih =>
    rw [List.foldl_cons]
    split_ifs with hnew
    · exact ih kept h
    · refine ih _ ?_
      rw [List.map_append, List.map_singleton]
      refine List.nodup_append.mpr ⟨h, List.nodup_singleton _, fun name hname other hother => ?_⟩
      rw [List.mem_singleton.mp hother]
      rintro rfl
      obtain ⟨found, hfound, heq⟩ := List.mem_map.mp hname
      exact hnew (List.any_eq_true.mpr ⟨found, hfound, decide_eq_true heq⟩)

theorem nodup_javaProperties (encoded : List Char) : ((javaProperties encoded).map Prod.fst).Nodup := by
  rw [javaProperties]
  split
  case h_1 => exact List.nodup_nil
  case h_2 => exact nodup_keepFirst _ [] List.nodup_nil

theorem nodup_parseLegacyProperties (encoded : List Char) :
    ((parseLegacyProperties encoded).map Prod.fst).Nodup := nodup_keepFirst _ [] List.nodup_nil

/-- The score of two sets of properties does not depend on the order in which they are walked. -/
theorem scoreProperties_perm (agree : List Char → List Char → Bool)
    {requested requested' candidate candidate' : List (List Char × List Char)}
    (hrequested : requested'.Perm requested) (hcandidate : candidate'.Perm candidate)
    (hnodup : (requested.map Prod.fst).Nodup) (hnodup' : (candidate.map Prod.fst).Nodup) :
    scoreProperties agree requested' candidate' = scoreProperties agree requested candidate := by
  have hlookup (name : List Char) : candidate'.lookup name = candidate.lookup name :=
    (ReorderedLoop.lookup_perm hcandidate.symm hnodup' name).symm
  have hlookup' (name : List Char) : requested'.lookup name = requested.lookup name :=
    (ReorderedLoop.lookup_perm hrequested.symm hnodup name).symm
  simp only [scoreProperties, hlookup, hlookup', hrequested.countP_eq, hcandidate.countP_eq,
    hrequested.length_eq]

/-- The legacy states are compared as the registry compares them, however they are walked. -/
theorem scanLegacy_eq (walk : HashWalk) (name encoded : List Char) :
    scanLegacy walk registry name (javaProperties encoded) =
      ((registry.legacyByState.lookup name).bind fun states =>
        CandidateScore.best (states.entries.map fun entry =>
          registry.legacyScore name (javaProperties encoded) (entry.1, entry.2))).map (·.runtimeId) := by
  rw [scanLegacy]
  congr 1
  refine Option.bind_congr fun states _ => ?_
  have hscore : walkedScore walk registry name (javaProperties encoded) =
      registry.legacyScore name (javaProperties encoded) := by
    funext candidate
    rw [walkedScore, MappingRegistry.legacyScore, scoreProperties_perm _ (walk.properties_perm _)
      (walk.properties_perm _) (nodup_javaProperties encoded) (nodup_parseLegacyProperties candidate.1)]
  rw [hscore, CandidateScore.best_perm ((walk.states_perm _).map _), List.map_map]
  rfl

end Walking

section Answers

/-- The candidates in memory are those of the registry, in some order, with the right orders kept. -/
structure Matches (cached : CachedRegistry) : Prop where
  right : ∀ name candidates, cached.candidates.lookup name = some candidates →
    Right cached.registry candidates
  perm : ∀ name, (plain ((cached.candidates.lookup name).getD [])).Perm
    ((cached.registry.javaCandidatesByName.lookup name).getD [])

variable {cached : CachedRegistry} {registry : MappingRegistry}

/-- Keeping what the loop over the candidates of a name has looked up. -/
theorem Matches.keep (h : Matches cached) {name : List Char} {candidates candidates' : List CachedCandidate}
    (hlookup : cached.candidates.lookup name = some candidates) (hright : Right cached.registry candidates')
    (hplain : plain candidates' = plain candidates) :
    Matches { cached with candidates := cached.candidates.insert name candidates' } where
  right other found hfound := by
    dsimp only at hfound
    rw [AssocMap.lookup_insert_eq] at hfound
    split at hfound
    · cases hfound
      exact hright
    · exact h.right other found hfound
  perm other := by
    dsimp only
    rw [AssocMap.lookup_insert_eq]
    split_ifs with hother
    · subst hother
      have hperm := h.perm other
      rw [hlookup] at hperm
      exact hplain ▸ hperm
    · exact h.perm other

/-- The answer is that of the registry, and asking leaves the candidates as they should be. -/
theorem Matches.compatible (h : Matches cached) (walk : HashWalk) (blockState : List Char) :
    (compatibleJavaRuntimeId walk cached blockState).1 = cached.registry.compatibleJavaRuntimeId blockState ∧
      (compatibleJavaRuntimeId walk cached blockState).2.registry = cached.registry ∧
      Matches (compatibleJavaRuntimeId walk cached blockState).2 := by
  rw [compatibleJavaRuntimeId, MappingRegistry.compatibleJavaRuntimeId]
  dsimp only
  cases cached.registry.javaRoundTripMapping.lookup (normalizeJavaState blockState) with
  | some runtimeId => exact ⟨rfl, rfl, h⟩
  | none =>
  dsimp only
  cases (if (javaProperties (normalizeJavaState blockState)).isEmpty then
      cached.registry.javaDefaultByName.lookup (javaName (normalizeJavaState blockState)) else none) with
  | some runtimeId => exact ⟨rfl, rfl, h⟩
  | none =>
  dsimp only
  cases cached.registry.javaMapping.lookup (normalizeJavaState blockState) with
  | some runtimeId => exact ⟨rfl, rfl, h⟩
  | none =>
  dsimp only
  have hperm := h.perm (javaName (normalizeJavaState blockState))
  rw [← CandidateScore.best_perm (hperm.map _)]
  cases hlookup : cached.candidates.lookup (javaName (normalizeJavaState blockState)) with
  | none => exact ⟨scanLegacy_eq walk _ _, rfl, h⟩
  | some candidates =>
    have hinv := @scan_inv cached.registry (javaProperties (normalizeJavaState blockState)) candidates
      (h.right _ candidates hlookup)
    have hall : (plain candidates).take candidates.length = plain candidates :=
      List.take_of_length_le (List.length_map _).le
    have hkeep := h.keep hlookup hinv.right hinv.plain_eq
    rw [Option.getD_some]
    dsimp only
    cases hbest : (scan cached.registry (javaProperties (normalizeJavaState blockState)) candidates).best with
    | none =>
      have hnone := hinv.unset hbest
      rw [hall] at hnone
      rw [hnone]
      exact ⟨scanLegacy_eq walk _ _, rfl, hkeep⟩
    | some best =>
      obtain ⟨candidate, hcandidate, hfound, -, -⟩ := hinv.set best hbest
      rw [hall] at hfound
      rw [hfound]
      refine ⟨?_, rfl, hkeep⟩
      rw [← hinv.plain_eq, getElem?_plain] at hcandidate
      obtain ⟨kept, hkept, rfl⟩ := Option.map_eq_some_iff.mp hcandidate
      dsimp only
      rw [hkept]
      rfl

/-- The tables of the Java states are the same. -/
structure SameJava (first second : MappingRegistry) : Prop where
  order : second.javaOrder = first.javaOrder
  mapping : second.javaMapping = first.javaMapping
  candidates : second.javaCandidatesByName = first.javaCandidatesByName

theorem SameJava.refl (registry : MappingRegistry) : SameJava registry registry := ⟨rfl, rfl, rfl⟩

variable {first second : MappingRegistry} {assets : MappingAssets}

theorem SameJava.trans {third : MappingRegistry} (h : SameJava first second) (h' : SameJava second third) :
    SameJava first third :=
  ⟨h'.order.trans h.order, h'.mapping.trans h.mapping, h'.candidates.trans h.candidates⟩

theorem sameJava_register (registry : MappingRegistry) (state : BlockState) :
    SameJava registry (registry.register state).2 := ⟨rfl, rfl, rfl⟩

theorem sameJava_addPoolEntry (loaded : List RuntimeId × MappingRegistry) (item : Json) :
    SameJava loaded.2 (MappingRegistry.addPoolEntry loaded item).2 := by
  rw [MappingRegistry.addPoolEntry]
  split
  case h_1 => exact sameJava_register _ _
  case h_2 => exact sameJava_register _ _
  case h_3 => exact .refl _

theorem sameJava_loadLegacyPool (registry : MappingRegistry) (file : AssetFile) (poolId : ℕ) :
    SameJava registry (registry.loadLegacyPool file poolId).2 := by
  have hloop (items : List Json) (loaded : List RuntimeId × MappingRegistry) :
      SameJava loaded.2 (items.foldl MappingRegistry.addPoolEntry loaded).2 := by
    induction items generalizing loaded with
    | nil => exact .refl _
    | cons item rest ih => exact (sameJava_addPoolEntry loaded item).trans (ih _)
  cases file with
  | missing | unreadable | malformed => exact .refl registry
  | content root =>
    rw [MappingRegistry.loadLegacyPool]
    cases root.items? with
    | none => exact .refl registry
    | some items => exact ⟨(hloop items ([], registry)).order, (hloop items ([], registry)).mapping,
        (hloop items ([], registry)).candidates⟩

/-- A load that fails leaves the tables of the Java states. -/
theorem sameJava_of_failed {error : String} (h : (registry.loadBlockMappings assets).1 = .error error) :
    SameJava registry (registry.loadBlockMappings assets).2 := by
  rw [MappingRegistry.loadBlockMappings] at h ⊢
  split at h
  case h_1 => exact .refl registry
  case h_2 =>
    split at h
    case h_1 => exact ⟨rfl, rfl, rfl⟩
    case h_2 =>
      split at h
      case h_1 => exact ⟨rfl, rfl, rfl⟩
      case h_2 => cases h

/-- The candidates of a registry are its Java states. -/
def Indexed (registry : MappingRegistry) : Prop :=
  registry.javaCandidatesByName = MappingRegistry.candidatesOf registry.javaMapping

theorem indexed_of_loaded (h : (registry.loadBlockMappings assets).1 = .ok ()) :
    Indexed (registry.loadBlockMappings assets).2 := by
  rw [MappingRegistry.loadBlockMappings] at h ⊢
  split at h
  case h_1 => cases h
  case h_2 =>
    split at h
    case h_1 => cases h
    case h_2 =>
      split at h
      case h_1 => cases h
      case h_2 => rfl

theorem Matches.of_sameJava (h : Matches cached) (hsame : SameJava cached.registry registry) :
    Matches { cached with registry } where
  right name candidates hlookup candidate hcandidate order horder := by
    dsimp only
    rw [hsame.order]
    exact h.right name candidates hlookup candidate hcandidate order horder
  perm name := by
    dsimp only
    rw [hsame.candidates]
    exact h.perm name

theorem Indexed.of_sameJava (h : Indexed first) (hsame : SameJava first second) : Indexed second := by
  rw [Indexed, hsame.candidates, hsame.mapping]
  exact h

theorem matches_of_fresh {candidates : AList fun _ : List Char => List CachedCandidate}
    (h : Fresh registry candidates) : Matches ⟨registry, candidates⟩ where
  right name found hlookup candidate hcandidate order horder := by
    have hperm := h name
    rw [hlookup, Option.getD_some] at hperm
    obtain ⟨_, -, rfl⟩ := List.mem_map.mp (hperm.mem_iff.mp hcandidate)
    cases horder
  perm name := by
    refine ((h name).map CachedCandidate.toJavaCandidate).trans ?_
    rw [List.map_map]
    exact .of_eq (List.map_id _)

/-- What holds of every registry that callers can have made. -/
theorem reachable_inv (h : Reachable cached) : Matches cached ∧ Indexed cached.registry := by
  induction h with
  | initial => exact ⟨matches_of_fresh fun _ => .nil, rfl⟩
  | register state _ ih =>
    exact ⟨ih.1.of_sameJava (sameJava_register _ state), ih.2.of_sameJava (sameJava_register _ state)⟩
  | loadPool file poolId _ ih =>
    exact ⟨ih.1.of_sameJava (sameJava_loadLegacyPool _ file poolId),
      ih.2.of_sameJava (sameJava_loadLegacyPool _ file poolId)⟩
  | loadFailed assets _ hfailed ih =>
    exact ⟨ih.1.of_sameJava (sameJava_of_failed hfailed), ih.2.of_sameJava (sameJava_of_failed hfailed)⟩
  | load assets _ hloaded candidates hfresh _ => exact ⟨matches_of_fresh hfresh, indexed_of_loaded hloaded⟩
  | ask walk blockState _ ih =>
    obtain ⟨-, hregistry, hmatches⟩ := ih.1.compatible walk blockState
    exact ⟨hmatches, hregistry ▸ ih.2⟩

/-- A Java state of the mapping as a candidate. -/
def candidateOf (entry : List Char × RuntimeId) : JavaCandidate := ⟨entry.1, entry.2, javaProperties entry.1⟩

/-- The Java states of a name. -/
def javaStatesNamed (registry : MappingRegistry) (name : List Char) : List (List Char × RuntimeId) :=
  (registry.javaMapping.entries.map fun entry => (entry.1, entry.2)).filter fun entry => javaName entry.1 = name

def legacyStatesNamed (registry : MappingRegistry) (name : List Char) : List (List Char × RuntimeId) :=
  ((registry.legacyByState.lookup name).elim [] AList.entries).map fun entry => (entry.1, entry.2)

/-- The candidates of a name are its Java states. -/
theorem Indexed.candidates (h : Indexed registry) (name : List Char) :
    (registry.javaCandidatesByName.lookup name).getD [] = (javaStatesNamed registry name).map candidateOf := by
  rw [h, MappingRegistry.candidatesOf]
  have hpush := AssocMap.lookup_foldl_pushBack
    (registry.javaMapping.entries.map fun entry => (javaName entry.1, candidateOf (entry.1, entry.2))) ∅ name
  rw [List.foldl_map, AList.lookup_empty, Option.getD_none, List.nil_append, List.filter_map, List.map_map] at hpush
  rw [javaStatesNamed, List.filter_map, List.map_map]
  exact hpush

/-- The answer is the id of one of the entries, and no other entry has a better score. -/
def IsBest (entries : List (List Char × RuntimeId)) (score : List Char × RuntimeId → CandidateScore)
    (answer : Option RuntimeId) : Prop :=
  ∃ entry ∈ entries, answer = some entry.2 ∧ ∀ other ∈ entries, ¬ (score other).better (score entry) = true

theorem isBest_best {entries : List (List Char × RuntimeId)} (hne : entries ≠ [])
    {score : List Char × RuntimeId → CandidateScore} (hid : ∀ entry, (score entry).runtimeId = entry.2) :
    IsBest entries score ((CandidateScore.best (entries.map score)).map (·.runtimeId)) := by
  obtain ⟨found, hmem, hfound, hall⟩ := @CandidateScore.exists_best (entries.map score)
    fun hnil => hne (List.map_eq_nil_iff.mp hnil)
  obtain ⟨entry, hentry, rfl⟩ := List.mem_map.mp hmem
  refine ⟨entry, hentry, ?_, fun other hother => hall _ (List.mem_map_of_mem hother)⟩
  rw [hfound, Option.map_some, hid]

/-- What the registry answers when the state itself is unknown. -/
theorem compatibleJavaRuntimeId_unknown (hindexed : Indexed registry) {blockState : List Char}
    (hproperties : javaProperties (normalizeJavaState blockState) ≠ [])
    (hroundTrip : registry.javaRoundTripMapping.lookup (normalizeJavaState blockState) = none)
    (hexact : registry.javaMapping.lookup (normalizeJavaState blockState) = none) :
    registry.compatibleJavaRuntimeId blockState =
      match (CandidateScore.best ((javaStatesNamed registry (javaName (normalizeJavaState blockState))).map
        fun entry => registry.javaScore (javaProperties (normalizeJavaState blockState)) (candidateOf entry))).map
          (·.runtimeId) with
      | some runtimeId => some runtimeId
      | none =>
        (CandidateScore.best ((legacyStatesNamed registry (javaName (normalizeJavaState blockState))).map
          (registry.legacyScore (javaName (normalizeJavaState blockState))
            (javaProperties (normalizeJavaState blockState))))).map (·.runtimeId) := by
  have hempty : (javaProperties (normalizeJavaState blockState)).isEmpty = false :=
    Bool.eq_false_iff.mpr fun hempty => hproperties (List.isEmpty_iff.mp hempty)
  rw [MappingRegistry.compatibleJavaRuntimeId]
  dsimp only
  rw [hroundTrip, hempty, hexact, hindexed.candidates, List.map_map, legacyStatesNamed]
  rw [Function.comp_def]
  cases CandidateScore.best ((javaStatesNamed registry (javaName (normalizeJavaState blockState))).map
    fun entry => registry.javaScore (javaProperties (normalizeJavaState blockState)) (candidateOf entry)) with
  | some score => rfl
  | none =>
    cases registry.legacyByState.lookup (javaName (normalizeJavaState blockState)) with
    | none => rfl
    | some states =>
      dsimp only [Option.map_none, Option.bind_some, Option.elim_some]
      rw [List.map_map]
      rfl

/-- The answer for an unknown state with properties is that of the best Java state of its name; without one
it is that of the best legacy state. It depends on the registry alone: not on how hash maps and candidates
are walked, and not on what earlier calls have left. -/
theorem compatibleJavaRuntimeId_best {cached : CachedRegistry} (h : Reachable cached) (walk : HashWalk)
    (blockState : List Char) (hproperties : javaProperties (normalizeJavaState blockState) ≠ [])
    (hroundTrip : cached.registry.javaRoundTripMapping.lookup (normalizeJavaState blockState) = none)
    (hexact : cached.registry.javaMapping.lookup (normalizeJavaState blockState) = none) :
    (javaStatesNamed cached.registry (javaName (normalizeJavaState blockState)) ≠ [] →
      IsBest (javaStatesNamed cached.registry (javaName (normalizeJavaState blockState)))
        (fun entry => cached.registry.javaScore (javaProperties (normalizeJavaState blockState))
          (candidateOf entry)) (compatibleJavaRuntimeId walk cached blockState).1) ∧
    (javaStatesNamed cached.registry (javaName (normalizeJavaState blockState)) = [] →
      legacyStatesNamed cached.registry (javaName (normalizeJavaState blockState)) ≠ [] →
        IsBest (legacyStatesNamed cached.registry (javaName (normalizeJavaState blockState)))
          (cached.registry.legacyScore (javaName (normalizeJavaState blockState))
            (javaProperties (normalizeJavaState blockState)))
          (compatibleJavaRuntimeId walk cached blockState).1) ∧
    (javaStatesNamed cached.registry (javaName (normalizeJavaState blockState)) = [] →
      legacyStatesNamed cached.registry (javaName (normalizeJavaState blockState)) = [] →
        (compatibleJavaRuntimeId walk cached blockState).1 = none) ∧
    (∀ walk' cached', Reachable cached' → cached'.registry = cached.registry →
      (compatibleJavaRuntimeId walk' cached' blockState).1 = (compatibleJavaRuntimeId walk cached blockState).1) ∧
    ∀ walk' other, (compatibleJavaRuntimeId walk (compatibleJavaRuntimeId walk' cached other).2 blockState).1 =
      (compatibleJavaRuntimeId walk cached blockState).1 := by
  obtain ⟨hmatches, hindexed⟩ := reachable_inv h
  have hanswer := compatibleJavaRuntimeId_unknown hindexed hproperties hroundTrip hexact
  rw [(hmatches.compatible walk blockState).1]
  refine ⟨fun hne => ?_, fun hnil hne => ?_, fun hnil hnil' => ?_, fun walk' cached' h' heq => ?_,
    fun walk' other => ?_⟩
  · obtain ⟨entry, hentry, hbest, hall⟩ := @isBest_best _ hne (fun entry =>
      cached.registry.javaScore (javaProperties (normalizeJavaState blockState)) (candidateOf entry)) fun _ => rfl
    rw [hbest] at hanswer
    exact ⟨entry, hentry, hanswer, hall⟩
  · rw [hnil] at hanswer
    rw [hanswer]
    exact isBest_best hne fun _ => rfl
  · rw [hnil, hnil'] at hanswer
    exact hanswer
  · rw [((reachable_inv h').1.compatible walk' blockState).1, heq]
  · obtain ⟨-, hregistry, hafter⟩ := hmatches.compatible walk' other
    rw [(hafter.compatible walk blockState).1, hregistry]

/-- The candidates as loading makes them. -/
def freshCandidates (registry : MappingRegistry) : AList fun _ : List Char => List CachedCandidate :=
  AssocMap.mapValues registry.javaCandidatesByName fun candidates => candidates.map fun candidate => ⟨candidate, none⟩

theorem fresh_freshCandidates (registry : MappingRegistry) : Fresh registry (freshCandidates registry) := by
  intro name
  rw [freshCandidates, AssocMap.lookup_mapValues]
  cases registry.javaCandidatesByName.lookup name with
  | none => exact .nil
  | some candidates => exact .refl _

/-- Mappings with two Java states that answer a request for a third one equally well. -/
def twoStatesAssets : MappingAssets where
  mappings := .content (.object [
    ("java_to_runtime".toList, .object [
      ("a[x=1,y=1]".toList, .unsigned 7), ("a[x=1,y=2]".toList, .unsigned 5)]),
    ("palette".toList, .array [.object [("name".toList, .string "minecraft:air".toList)]]),
    ("schema".toList, .unsigned 1)])
  upgradeSchemas := .ok id
  schematicReverse := .missing
  javaConversionOrder := .missing
  javaRuntimeStates := .missing

/-- The registry that has loaded them. -/
def twoStates : CachedRegistry :=
  ⟨(MappingRegistry.initial.loadBlockMappings twoStatesAssets).2,
    freshCandidates (MappingRegistry.initial.loadBlockMappings twoStatesAssets).2⟩

theorem reachable_twoStates : Reachable twoStates :=
  .load twoStatesAssets .initial (by decide +kernel) _ (fresh_freshCandidates _)

def listWalk : HashWalk := ⟨id, id, fun _ => .refl _, fun _ => .refl _⟩

theorem compatibleJavaRuntimeId_best_twoStates :
    IsBest (javaStatesNamed twoStates.registry "minecraft:a".toList)
      (fun entry => twoStates.registry.javaScore [("x".toList, "1".toList)] (candidateOf entry))
      (compatibleJavaRuntimeId listWalk twoStates "a[x=1]".toList).1 := by
  have hname : javaName (normalizeJavaState "a[x=1]".toList) = "minecraft:a".toList := by decide +kernel
  have hrequested : javaProperties (normalizeJavaState "a[x=1]".toList) = [("x".toList, "1".toList)] := by
    decide +kernel
  have hbest := (compatibleJavaRuntimeId_best reachable_twoStates listWalk "a[x=1]".toList
    (by decide +kernel) (by decide +kernel) (by decide +kernel)).1
  rw [hname, hrequested] at hbest
  exact hbest (by decide +kernel)

end Answers

end CachedRegistry

end WaterStructure
