import Grafy.Alignment
import Grafy.Loops
import Grafy.NodeContracts
import Grafy.SimpleWalks

/-!
The canvas and the server on the same routes. A saved selection is replayed by the canvas
where the server resolves it, step by step. Every path of conversions that the search
offers is a walk that comes to no artifact type twice, so it is replayed as it was offered.
-/
namespace Grafy.NodeContracts

open CanonicalJson ConnectionRoutes GraphDocuments Loops OrderedDict SimpleWalks

variable {seen : List ArtifactTypeKey}

section Keys

theorem at_notMem_intText (i : Int) : '@' ∉ intText i := by
  intro h
  have hnumber := (intText_numeric i '@' h).1
  revert hnumber
  decide

variable {a : ArtifactTypeKey}

/-- The canvas tells artifact types apart by their texts. -/
theorem artifactTypeKey_inj {b : ArtifactTypeKey} :
    artifactTypeKey a = artifactTypeKey b ↔ a = b := by
  constructor
  · intro h
    have hreverse := congrArg List.reverse h
    simp only [artifactTypeKey, List.reverse_append, List.reverse_cons, List.append_assoc,
      List.singleton_append] at hreverse
    have hbefore : ∀ i : Int, ∀ c ∈ (intText i).reverse, (c != '@') = true := by
      intro i c hc
      have hmem := List.mem_reverse.mp hc
      have hne : c ≠ '@' := fun heq => at_notMem_intText i (heq ▸ hmem)
      simpa using hne
    have htake := congrArg (List.takeWhile (· != '@')) hreverse
    rw [List.takeWhile_append_of_pos (hbefore _), List.takeWhile_append_of_pos (hbefore _)] at htake
    simp only [bne_self_eq_false, Bool.false_eq_true, not_false_eq_true,
      List.takeWhile_cons_of_neg, List.append_nil, List.reverse_inj] at htake
    have hversion := intText_injective htake
    rw [hversion] at hreverse
    have hid := List.append_cancel_left hreverse
    simp only [List.cons.injEq, true_and, List.reverse_inj] at hid
    obtain ⟨id, version⟩ := a
    obtain ⟨id', version'⟩ := b
    dsimp only at hversion hid
    rw [hversion, String.toList_inj.mp hid]
  · rintro rfl
    rfl

theorem key_mem_map : artifactTypeKey a ∈ seen.map artifactTypeKey ↔ a ∈ seen := by
  rw [List.mem_map]
  constructor
  · rintro ⟨b, hb, hkey⟩
    exact artifactTypeKey_inj.mp hkey ▸ hb
  · intro ha
    exact ⟨a, ha, rfl⟩

end Keys

variable {path : List ArtifactConversionSpec} {source target : ArtifactTypeKey}

section Replay

variable {catalogue : List ArtifactConversion}

/-- Step by step the canvas replays what the server resolves. -/
theorem replay_eq_convert (repr : Quoting) (label : String)
    (hfeed : ∀ c ∈ catalogue, ∀ d ∈ catalogue, c.targetArtifactType = d.sourceArtifactType →
      compatible c.targetType d.sourceType) (requested : List GraphConversion) (index : ℕ)
    (previous : Option ArtifactConversion) (seen : List ArtifactTypeKey)
    (source : ArtifactTypeKey)
    (hprevious : ∀ p, previous = some p → p ∈ catalogue ∧ p.targetArtifactType = source) :
    replayConversions (catalogue.map ArtifactConversion.toArtifactConversionSpec) requested source
        (seen.map artifactTypeKey) =
      (convertSteps repr catalogue label requested index previous seen source).toOption.map
        (fun result => (result.1.map ArtifactConversion.toArtifactConversionSpec, result.2)) := by
  induction requested generalizing index previous seen source with
  | nil => rfl
  | cons step rest ih =>
    rw [replayConversions, convertSteps, List.find?_map]
    have hcomp : ((fun candidate : ArtifactConversionSpec => decide (candidate.key = step)) ∘
        ArtifactConversion.toArtifactConversionSpec) =
          fun conversion : ArtifactConversion => decide (conversion.key = step) := rfl
    rw [hcomp]
    cases hfind : catalogue.find? (fun conversion => decide (conversion.key = step)) with
    | none => rfl
    | some conversion =>
      have hmem := List.mem_of_find?_eq_some hfind
      simp only [Option.map_some, Option.bind_some, bind, ne_eq, artifactTypeKey_inj]
      by_cases hsource : conversion.sourceArtifactType = source
      · have hfits : previous.filter
            (fun p => decide (¬ compatible p.targetType conversion.sourceType)) = none := by
          cases previous with
          | none => rfl
          | some p =>
            obtain ⟨hp, htarget⟩ := hprevious p rfl
            have := hfeed p hp conversion hmem (htarget.trans hsource.symm)
            simp [this]
        rw [hfits]
        simp only [hsource, not_true_eq_false, if_false, List.contains_iff_mem, key_mem_map]
        by_cases hseen : conversion.targetArtifactType ∈ seen
        · simp [hseen, Except.toOption]
        · simp only [hseen, if_false]
          have hnext := ih (index + 1) (some conversion) (conversion.targetArtifactType :: seen)
            conversion.targetArtifactType
            (fun p hp => by obtain rfl := Option.some.inj hp; exact ⟨hmem, rfl⟩)
          rw [List.map_cons] at hnext
          rw [hnext]
          cases convertSteps repr catalogue label rest (index + 1) (some conversion)
            (conversion.targetArtifactType :: seen) conversion.targetArtifactType <;> rfl
      · simp [hsource, Except.toOption]

/-- The canvas replays every walk over its conversions. -/
theorem replay_of_walk {conversions : List ArtifactConversionSpec}
    (hkeys : (conversions.map (fun c => c.key)).Nodup) (hpath : ∀ c ∈ path, c ∈ conversions)
    (h : Walk ArtifactConversionSpec.sourceArtifactType ArtifactConversionSpec.targetArtifactType
      seen source path target) :
    replayConversions conversions (path.map (fun c => c.key)) source (seen.map artifactTypeKey) =
      some (path, target) := by
  induction path generalizing seen source with
  | nil =>
    rw [walk_nil_iff.mp h]
    rfl
  | cons conversion rest ih =>
    obtain ⟨hsource, hnew, hrest⟩ := walk_cons_iff.mp h
    rw [List.map_cons, replayConversions,
      find?_by_key (fun c => c.key) hkeys (hpath conversion List.mem_cons_self)]
    have hnext := ih (fun c hc => hpath c (List.mem_cons_of_mem _ hc)) hrest
    rw [List.map_cons] at hnext
    simp [artifactTypeKey_inj, hsource, hnew, hnext]

end Replay

variable {localeCompare : String → String → Int}

section Search

/-- What holds after every turn of a loop that may give up. -/
theorem foldlM_keeps {S A : Type} {f : S → A → Option S} (P : S → Prop) {l : List A} {s t : S}
    (h : l.foldlM f s = some t) (hs : P s)
    (hstep : ∀ s a t, a ∈ l → P s → f s a = some t → P t) : P t := by
  induction l generalizing s with
  | nil =>
    cases h
    exact hs
  | cons a rest ih =>
    obtain ⟨u, hu, hrest⟩ := Option.bind_eq_some_iff.mp h
    exact ih hrest (hstep s a u List.mem_cons_self hs hu)
      (fun s a t ha => hstep s a t (List.mem_cons_of_mem _ ha))

variable (conversions : List ArtifactConversionSpec) (start : ArtifactTypeKey)

/-- A path of conversions that the canvas may offer. -/
structure Offered (limit : ℕ) (target : ArtifactTypeKey) (path : List ArtifactConversionSpec) :
    Prop where
  walk : Walk ArtifactConversionSpec.sourceArtifactType ArtifactConversionSpec.targetArtifactType
    [start] start path target
  known : ∀ c ∈ path, c ∈ conversions
  length : path.length ≤ limit

/-- A state that the search has come to at some depth. -/
structure Arrived (depth : ℕ) (state : SearchState) : Prop where
  offered : Offered conversions start depth state.artifactType state.conversionPath
  visited : state.visitedArtifactTypes = (start :: state.conversionPath.map
    ArtifactConversionSpec.targetArtifactType).map artifactTypeKey

structure LevelOk (target : ArtifactTypeKey) (depth : ℕ) (level : SearchLevel) : Prop where
  completed : ∀ path ∈ level.completed, Offered conversions start depth target path
  frontier : ∀ state ∈ level.nextFrontier, Arrived conversions start depth state

variable {conversions start} {depth : ℕ} {paths : List (List ArtifactConversionSpec)}
  {level' : SearchLevel} {state : SearchState} {level : SearchLevel}
  {sorted : List ArtifactConversionSpec}

theorem expandConversion_ok {conversion : ArtifactConversionSpec}
    (hstate : Arrived conversions start depth state)
    (hlevel : LevelOk conversions start target (depth + 1) level)
    (hknown : conversion ∈ conversions)
    (hsource : conversion.sourceArtifactType = state.artifactType)
    (h : expandConversion target state level conversion = some level') :
    LevelOk conversions start target (depth + 1) level' := by
  unfold expandConversion at h
  dsimp only at h
  split at h
  · cases h
    exact hlevel
  · next hfresh =>
    rw [List.contains_iff_mem, hstate.visited, key_mem_map, List.mem_cons, not_or] at hfresh
    have hoffered : Offered conversions start (depth + 1) conversion.targetArtifactType
        (state.conversionPath ++ [conversion]) := by
      refine ⟨hstate.offered.walk.snoc hsource (by simpa using hfresh.1) hfresh.2, ?_, ?_⟩
      · intro c hc
        rcases List.mem_append.mp hc with hold | hnew
        · exact hstate.offered.known c hold
        · exact List.mem_singleton.mp hnew ▸ hknown
      · rw [List.length_append]
        exact Nat.add_le_add_right hstate.offered.length 1
    split at h
    · cases h
    · split at h
      · next htarget =>
        split at h
        · cases h
        · cases h
          refine ⟨fun path hpath => ?_, hlevel.frontier⟩
          rcases mem_snoc.mp hpath with hold | rfl
          · exact hlevel.completed path hold
          · rw [← artifactTypeKey_inj.mp htarget]
            exact hoffered
      · cases h
        refine ⟨hlevel.completed, fun next hnext => ?_⟩
        rcases mem_snoc.mp hnext with hold | rfl
        · exact hlevel.frontier next hold
        · refine ⟨hoffered, ?_⟩
          rw [hstate.visited]
          simp

theorem expandState_ok (hsorted : ∀ c ∈ sorted, c ∈ conversions)
    (hstate : Arrived conversions start depth state)
    (hlevel : LevelOk conversions start target (depth + 1) level)
    (h : expandState sorted target level state = some level') :
    LevelOk conversions start target (depth + 1) level' := by
  refine foldlM_keeps _ h hlevel (fun level conversion level' hmem hok hnext => ?_)
  obtain ⟨hknown, hsource⟩ := List.mem_filter.mp hmem
  exact expandConversion_ok hstate hok (hsorted _ hknown)
    (artifactTypeKey_inj.mp (by simpa using hsource)) hnext

theorem searchFrom_offered (hsorted : ∀ c ∈ sorted, c ∈ conversions) {more : ℕ}
    {frontier : List SearchState}
    (hfrontier : ∀ state ∈ frontier, Arrived conversions start depth state) {expanded : ℕ}
    (h : searchFrom localeCompare sorted target more frontier expanded = some paths) :
    ∀ path ∈ paths, Offered conversions start (depth + more) target path := by
  induction more generalizing depth frontier expanded with
  | zero =>
    cases h
    nofun
  | succ more ih =>
    obtain ⟨level, hlevel, h⟩ := Option.bind_eq_some_iff.mp h
    have hok : LevelOk conversions start target (depth + 1) level :=
      foldlM_keeps _ hlevel ⟨nofun, nofun⟩
        (fun level state level' hstate hok hnext =>
          expandState_ok hsorted (hfrontier state hstate) hok hnext)
    split at h
    · cases h
      intro path hpath
      have hoffered := hok.completed path (List.mem_mergeSort.mp hpath)
      exact ⟨hoffered.walk, hoffered.known, hoffered.length.trans (by omega)⟩
    · split at h
      · cases h
        nofun
      · have hrest := ih hok.frontier h
        rwa [Nat.add_right_comm, Nat.add_assoc] at hrest

theorem shortestConversionPaths_offered
    (h : shortestConversionPaths localeCompare start target conversions = some paths) :
    ∀ path ∈ paths, Offered conversions start maxConversionPathLength target path := by
  unfold shortestConversionPaths at h
  split at h
  · next hsame =>
    cases h
    intro path hpath
    rw [List.mem_singleton.mp hpath, ← artifactTypeKey_inj.mp hsame]
    exact ⟨.nil _ _, nofun, Nat.zero_le _⟩
  · have hstart : ∀ state ∈ [(⟨start, [], [artifactTypeKey start]⟩ : SearchState)],
        Arrived conversions start 0 state := by
      intro state hstate
      rw [List.mem_singleton.mp hstate]
      exact ⟨⟨.nil _ _, nofun, Nat.zero_le _⟩, rfl⟩
    have hsearch := searchFrom_offered (fun c hc => List.mem_mergeSort.mp hc) hstart h
    rwa [Nat.zero_add] at hsearch

theorem shortestConversionPathsToAny_offered {targets : List ArtifactTypeKey}
    (h : shortestConversionPathsToAny localeCompare start targets conversions = some paths) :
    ∀ path ∈ paths, ∃ target ∈ targets,
      Offered conversions start maxConversionPathLength target path := by
  obtain ⟨found, hfound, hpaths⟩ := Option.bind_eq_some_iff.mp h
  cases hpaths
  intro path hpath
  obtain ⟨group, hgroup, hin⟩ := List.mem_flatten.mp hpath
  obtain ⟨target, htarget, hsearch⟩ := Alignment.exists_left (mapM_some_iff.mp hfound) hgroup
  exact ⟨target, htarget, shortestConversionPaths_offered hsearch path hin⟩

end Search

section Agreement

/-- What the deployment registers. The registry keys its artifact types, refuses two
projections of one path, and the catalogue refuses two conversions of one key. -/
structure Catalogue where
  artifactTypes : List ArtifactTypeSpec
  conversions : List ArtifactConversion
  types_nodup : (artifactTypes.map (fun spec => spec.key)).Nodup
  paths_nodup : ∀ spec ∈ artifactTypes, (spec.fieldProjections.map (fun p => p.path)).Nodup
  conversions_nodup : (conversions.map (fun c => c.key)).Nodup
  feeds : ∀ c ∈ conversions, ∀ d ∈ conversions, c.targetArtifactType = d.sourceArtifactType →
    compatible c.targetType d.sourceType

/-- What the canvas is sent of the conversions. -/
def Catalogue.sent (catalogue : Catalogue) : List ArtifactConversionSpec :=
  catalogue.conversions.map ArtifactConversion.toArtifactConversionSpec

variable (catalogue : Catalogue)

theorem Catalogue.sent_nodup : (catalogue.sent.map (fun c => c.key)).Nodup := by
  rw [sent, List.map_map]
  exact catalogue.conversions_nodup

theorem findArtifact_eq_some {spec : ArtifactTypeSpec} {key : ArtifactTypeKey} :
    findArtifact catalogue.artifactTypes key = some spec ↔
      spec ∈ catalogue.artifactTypes ∧ spec.key = key := by
  unfold findArtifact
  simp only [artifactTypeKey_inj]
  constructor
  · intro h
    exact ⟨List.mem_of_find?_eq_some h, by simpa using List.find?_some h⟩
  · rintro ⟨hspec, rfl⟩
    exact find?_by_key (fun spec => spec.key) catalogue.types_nodup hspec

/-- The server's table of projections and the canvas's search find the same projection. -/
theorem projectionFor_eq (path : List String) (key : ArtifactTypeKey) :
    projectionFor catalogue.artifactTypes path key =
      (findArtifact catalogue.artifactTypes key).bind
        (fun spec => spec.fieldProjections.find? (fun p => p.path = path)) := by
  have hnodup : ((catalogue.artifactTypes.filter
      (fun spec => ¬ spec.fieldProjections.isEmpty)).map (fun spec => spec.key)).Nodup :=
    catalogue.types_nodup.sublist (List.filter_sublist.map _)
  unfold projectionFor projectableArtifactTypes
  cases hfind : findArtifact catalogue.artifactTypes key with
  | none =>
    have hnone : (Dict.get? ((catalogue.artifactTypes.filter
        (fun spec => ¬ spec.fieldProjections.isEmpty)).foldl
          (fun d spec => d.set spec.key spec) []) key) = none := by
      by_contra hsome
      obtain ⟨spec, hspec⟩ := Option.ne_none_iff_exists'.mp hsome
      obtain ⟨hmem, hkey⟩ := (Dict.get?_foldl_set_iff _ hnodup).mp hspec
      rw [(findArtifact_eq_some catalogue).mpr ⟨List.mem_of_mem_filter hmem, hkey⟩] at hfind
      cases hfind
    rw [hnone]
    rfl
  | some spec =>
    obtain ⟨hmem, hkey⟩ := (findArtifact_eq_some catalogue).mp hfind
    by_cases hempty : spec.fieldProjections.isEmpty
    · have hnone : ∀ found, (Dict.get? ((catalogue.artifactTypes.filter
          (fun spec => ¬ spec.fieldProjections.isEmpty)).foldl
            (fun d spec => d.set spec.key spec) []) key) ≠ some found := by
        intro found hfound
        obtain ⟨hin, hkey'⟩ := (Dict.get?_foldl_set_iff _ hnodup).mp hfound
        obtain ⟨hin, hfull⟩ := List.mem_filter.mp hin
        have hsame := (findArtifact_eq_some catalogue).mpr ⟨hin, hkey'⟩
        rw [hfind] at hsame
        cases hsame
        simp [hempty] at hfull
      rw [Option.eq_none_iff_forall_ne_some.mpr hnone]
      simp [List.isEmpty_iff.mp hempty]
    · have hget := (Dict.get?_foldl_set_iff (fun spec : ArtifactTypeSpec => spec.key) hnodup).mpr
        ⟨List.mem_filter.mpr ⟨hmem, by simpa using hempty⟩, hkey⟩
      rw [hget]
      rfl

end Agreement

variable {repr : Quoting} {also : List ArtifactTypeKey}

section Selection

theorem convertSteps_walk {conversions : List ArtifactConversion} {label : String}
    {requested : List GraphConversion} {index : ℕ} {previous : Option ArtifactConversion}
    {final : ArtifactTypeKey} {path : List ArtifactConversion}
    (h : convertSteps repr conversions label requested index previous seen source = .ok (path,
      final)) :
    Walk (fun c : ArtifactConversion => c.sourceArtifactType) (fun c => c.targetArtifactType)
      seen source path final := by
  induction requested generalizing index previous seen source path with
  | nil =>
    cases h
    exact .nil _ _
  | cons step rest ih =>
    rw [convertSteps] at h
    split at h
    · cases h
    · next conversion _ =>
      split at h
      · cases h
      · next hsource =>
        split at h
        · cases h
        · split at h
          · cases h
          · next hnew =>
            cases hrest : convertSteps repr conversions label rest (index + 1) (some conversion)
              (conversion.targetArtifactType :: seen) conversion.targetArtifactType with
            | error e =>
              rw [hrest] at h
              cases h
            | ok result =>
              rw [hrest] at h
              cases h
              exact walk_cons_iff.mpr ⟨not_not.mp hsource, hnew, ih hrest⟩

variable (catalogue : Catalogue)

/-- Both ask the same of a projection. -/
theorem selectProjection_eq (repr : Quoting) (item : Incoming) (key : ArtifactTypeKey) :
    selectProjection (findArtifact catalogue.artifactTypes key) item.projectionPath =
      (resolveProjection repr catalogue.artifactTypes item key).toOption := by
  unfold selectProjection resolveProjection
  cases item.projectionPath with
  | none => rfl
  | some path =>
    dsimp only
    rw [projectionFor_eq]
    cases findArtifact catalogue.artifactTypes key with
    | none => rfl
    | some spec =>
      simp only [bind, Option.bind_some]
      cases spec.fieldProjections.find? (fun p => p.path = path) <;> rfl

/-- An incoming value of a type, with what a saved selection asks for. -/
structure Carries (item : Incoming) (sourceType : ArtifactTypeKey) (selection : RouteSelection) :
    Prop where
  value : valueKey item.value = sourceType
  projection : item.projectionPath = selection.projection
  conversionPath : item.conversionPath = selection.conversionPath

/-- The server resolves an incoming value, and the port accepts what it delivers. -/
def Accepts (repr : Quoting) (item : Incoming) (port : InputPortSpec) : Prop :=
  ∃ s, slot repr catalogue.artifactTypes catalogue.conversions item = .ok s ∧
    checkDelivered repr s port = .ok ()

variable {catalogue} {item : Incoming} {port : InputPortSpec} {sourceType primary : ArtifactTypeKey}
  {selection : RouteSelection}

theorem checkDelivered_iff {s : InputSlot} (hport : port.accepts = .concrete primary) :
    checkDelivered repr s port = .ok () ↔ s.delivered ∈ primary :: port.alsoAccepts := by
  have haccepted : port.acceptedTypes = primary :: port.alsoAccepts := by
    rw [InputPortSpec.acceptedTypes, hport]
  unfold checkDelivered
  rw [haccepted]
  by_cases hmem : s.delivered ∈ primary :: port.alsoAccepts
  · simp [hmem]
  · simp [hmem]

theorem accepts_iff (hport : port.accepts = .concrete primary) :
    Accepts catalogue repr item port ↔
      ∃ projection, resolveProjection repr catalogue.artifactTypes item (valueKey item.value) =
          .ok projection ∧ item.conversionPath.length ≤ maxArtifactConversionHops ∧
        ∃ path final, convertSteps repr catalogue.conversions item.label item.conversionPath 0 none
            [projection.elim (valueKey item.value) (fun p => p.targetArtifactType)]
            (projection.elim (valueKey item.value) (fun p => p.targetArtifactType)) =
              .ok (path, final) ∧
          final ∈ primary :: port.alsoAccepts := by
  unfold Accepts slot conversionsFor
  simp only [bind, Except.bind, checkDelivered_iff hport]
  cases resolveProjection repr catalogue.artifactTypes item (valueKey item.value) with
  | error e => simp
  | ok projection =>
    simp only [Except.ok.injEq, exists_eq_left']
    by_cases hlong : item.conversionPath.length > maxArtifactConversionHops
    · simp [hlong]
    · rw [if_neg hlong]
      cases hsteps : convertSteps repr catalogue.conversions item.label item.conversionPath 0 none
          [projection.elim (valueKey item.value) (fun p => p.targetArtifactType)]
          (projection.elim (valueKey item.value) (fun p => p.targetArtifactType)) with
      | error e => simp
      | ok result =>
        obtain ⟨path, final⟩ := result
        have hend := (convertSteps_walk hsteps).end_eq
        have hdelivered : (⟨item.toPort, item.toPlug, item.value, projection, path, item.mapDriven,
            item.label, item.sourceNodeId, item.sourcePort, item.targetNodeId⟩ :
              InputSlot).delivered = final := by
          rw [hend, InputSlot.delivered]
          cases path.getLast? <;> rfl
        simp [pure, Except.pure, hdelivered, Nat.not_lt.mp hlong]

theorem selection_isSome_iff {sourceAlso : List ArtifactTypeKey}
    {artifactTypes : List ArtifactTypeSpec} {conversions : List ArtifactConversionSpec} :
    (connectionRouteForSelection (some ⟨.output, .concrete sourceType sourceAlso⟩)
        (some ⟨.input, .concrete primary also⟩) artifactTypes conversions selection).isSome ↔
      ∃ projection, selectProjection (findArtifact artifactTypes sourceType) selection.projection =
          some projection ∧ selection.conversionPath.length ≤ maxConversionPathLength ∧
        ∃ path final, replayConversions conversions selection.conversionPath
            (projection.elim sourceType (fun p => p.targetArtifactType))
            [artifactTypeKey (projection.elim sourceType (fun p => p.targetArtifactType))] =
              some (path, final) ∧
          final ∈ primary :: also := by
  unfold connectionRouteForSelection
  by_cases hlong : selection.conversionPath.length > maxConversionPathLength
  · simp [hlong]
  · cases hprojection : selectProjection (findArtifact artifactTypes sourceType)
        selection.projection with
    | none => simp [hlong, hprojection]
    | some projection =>
      cases hreplay : replayConversions conversions selection.conversionPath
          (projection.elim sourceType (fun p => p.targetArtifactType))
          [artifactTypeKey (projection.elim sourceType (fun p => p.targetArtifactType))] with
      | none => simp [hlong, hprojection, hreplay]
      | some result =>
        obtain ⟨path, final⟩ := result
        simp [Nat.not_lt.mp hlong, hprojection, hreplay, acceptedHandleArtifactTypes,
          Option.isSome_iff_exists]

/-- A saved selection is good on the canvas just when the server takes such an edge. -/
theorem selection_agrees (hport : port.accepts = .concrete primary)
    (hitem : Carries item sourceType selection) (sourceAlso : List ArtifactTypeKey) :
    (connectionRouteForSelection (some ⟨.output, .concrete sourceType sourceAlso⟩)
        (some ⟨.input, .concrete primary port.alsoAccepts⟩) catalogue.artifactTypes catalogue.sent
        selection).isSome ↔ Accepts catalogue repr item port := by
  rw [selection_isSome_iff, accepts_iff hport, hitem.value, hitem.conversionPath,
    ← hitem.projection, selectProjection_eq catalogue repr]
  cases resolveProjection repr catalogue.artifactTypes item sourceType with
  | error e => simp [Except.toOption]
  | ok projection =>
    have hreplay := replay_eq_convert repr item.label catalogue.feeds selection.conversionPath 0
      none [projection.elim sourceType (fun p => p.targetArtifactType)]
      (projection.elim sourceType (fun p => p.targetArtifactType)) nofun
    rw [List.map_singleton] at hreplay
    simp only [Except.toOption, Option.some.injEq, exists_eq_left', Except.ok.injEq,
      Catalogue.sent, hreplay]
    refine and_congr_right (fun _ => ?_)
    cases convertSteps repr catalogue.conversions item.label selection.conversionPath 0 none
        [projection.elim sourceType (fun p => p.targetArtifactType)]
        (projection.elim sourceType (fun p => p.targetArtifactType)) with
    | error e => simp
    | ok result =>
      obtain ⟨path, final⟩ := result
      simp

end Selection

section Offers

variable {route : ConnectionRoute}

theorem mem_addProjectionRoutes {routesOf : FieldProjection → Option (List ConnectionRoute)}
    {projections : List FieldProjection} {routes : List ConnectionRoute}
    (h : route ∈ addProjectionRoutes routesOf projections routes) :
    route ∈ routes ∨ ∃ p ∈ projections, ∃ found, routesOf p = some found ∧ route ∈ found := by
  induction projections generalizing routes with
  | nil => exact Or.inl h
  | cons p rest ih =>
    rw [addProjectionRoutes] at h
    split at h
    · cases h
    · next found hfound =>
      split at h
      · cases h
      · rcases ih h with hin | ⟨q, hq, hroute⟩
        · rcases List.mem_append.mp hin with hold | hnew
          · exact Or.inl hold
          · exact Or.inr ⟨p, List.mem_cons_self, found, hfound, hnew⟩
        · exact Or.inr ⟨q, List.mem_cons_of_mem _ hq, hroute⟩

theorem selection_connectionRoute (projection : Option FieldProjection)
    (path : List ArtifactConversionSpec) (binding : Option ArtifactTypeBinding) :
    connectionRouteSelection (connectionRoute projection path binding) =
      ⟨projection.map (fun p => p.path), path.map (fun c => c.key)⟩ := by
  cases projection with
  | none | some p => cases path <;> rfl

variable {catalogue : Catalogue} {sourceType primary target : ArtifactTypeKey}
  {sourceAlso : List ArtifactTypeKey}

/-- Where a route starts: at the source type or at a projection of it. -/
def StartsAt (catalogue : Catalogue) (sourceType : ArtifactTypeKey)
    (projection : Option FieldProjection) : Prop :=
  ∀ p, projection = some p →
    ∃ spec, findArtifact catalogue.artifactTypes sourceType = some spec ∧ p ∈ spec.fieldProjections

theorem startsAt_none : StartsAt catalogue sourceType none := nofun

theorem startsAt_some {p : FieldProjection}
    (hp : p ∈ sortedProjections localeCompare (findArtifact catalogue.artifactTypes sourceType)) :
    StartsAt catalogue sourceType (some p) := by
  rintro q hq
  cases hq
  have hin := List.mem_mergeSort.mp hp
  cases hspec : findArtifact catalogue.artifactTypes sourceType with
  | none =>
    rw [hspec] at hin
    cases hin
  | some spec =>
    rw [hspec] at hin
    exact ⟨spec, rfl, hin⟩

theorem route_recovered {projection : Option FieldProjection}
    (hprojection : StartsAt catalogue sourceType projection)
    (hpath : Offered catalogue.sent (projection.elim sourceType (fun p => p.targetArtifactType))
      maxConversionPathLength target path) (htarget : target ∈ primary :: also) :
    connectionRouteForSelection (some ⟨.output, .concrete sourceType sourceAlso⟩)
        (some ⟨.input, .concrete primary also⟩) catalogue.artifactTypes catalogue.sent
        (connectionRouteSelection (connectionRoute projection path none)) =
      some (connectionRoute projection path none) := by
  have hselect : selectProjection (findArtifact catalogue.artifactTypes sourceType)
      (projection.map (fun p => p.path)) = some projection := by
    cases projection with
    | none => rfl
    | some p =>
      obtain ⟨spec, hspec, hp⟩ := hprojection p rfl
      have hfind := find?_by_key (fun p => p.path)
        (catalogue.paths_nodup spec ((findArtifact_eq_some catalogue).mp hspec).1) hp
      simp only [selectProjection, Option.map_some, hspec, bind, Option.bind_some, hfind]
      rfl
  have hreplay := replay_of_walk catalogue.sent_nodup hpath.known hpath.walk
  rw [List.map_singleton] at hreplay
  rw [selection_connectionRoute]
  have hlength : ¬ path.length > maxConversionPathLength := Nat.not_lt.mpr hpath.length
  simp [connectionRouteForSelection, hselect, hreplay, hlength, acceptedHandleArtifactTypes,
    List.mem_cons.mp htarget]

theorem routes_recovered
    (h : route ∈ connectionRoutesFor localeCompare (some ⟨.output, .concrete sourceType sourceAlso⟩)
      (some ⟨.input, .concrete primary also⟩) catalogue.artifactTypes catalogue.sent) :
    connectionRouteForSelection (some ⟨.output, .concrete sourceType sourceAlso⟩)
        (some ⟨.input, .concrete primary also⟩) catalogue.artifactTypes catalogue.sent
        (connectionRouteSelection route) = some route := by
  unfold connectionRoutesFor at h
  dsimp only [acceptedHandleArtifactTypes] at h
  rw [if_neg (by simp)] at h
  by_cases hexact : (primary :: also).any (fun candidate =>
      decide (artifactTypeKey candidate = artifactTypeKey sourceType)) = true
  · rw [if_pos hexact] at h
    obtain ⟨candidate, hcandidate, hkey⟩ := List.any_eq_true.mp hexact
    have hsame := artifactTypeKey_inj.mp (of_decide_eq_true hkey)
    rw [List.mem_singleton.mp h]
    have hpath : Offered catalogue.sent sourceType maxConversionPathLength sourceType [] :=
      ⟨.nil _ _, nofun, Nat.zero_le _⟩
    exact route_recovered startsAt_none hpath (hsame ▸ hcandidate)
  · rw [if_neg hexact] at h
    split at h
    · cases h
    · next paths hpaths =>
      split at h
      · cases h
      · rcases mem_addProjectionRoutes h with hbase | ⟨p, hp, found, hfound, hroute⟩
        · obtain ⟨path, hpath, rfl⟩ := List.mem_map.mp hbase
          obtain ⟨target, htarget, hoffered⟩ :=
            shortestConversionPathsToAny_offered hpaths path hpath
          exact route_recovered startsAt_none hoffered htarget
        · obtain ⟨paths, hpaths, rfl⟩ := Option.map_eq_some_iff.mp hfound
          obtain ⟨path, hpath, rfl⟩ := List.mem_map.mp hroute
          obtain ⟨target, htarget, hoffered⟩ :=
            shortestConversionPathsToAny_offered hpaths path hpath
          exact route_recovered (startsAt_some hp) hoffered htarget

/-- For every deployment and every concrete port, the canvas takes a saved selection just when
the server takes an edge that asks for it, and every route that the canvas offers between
concrete handles is taken by both and comes back from the selection that is saved of it. -/
theorem routes_agree (catalogue : Catalogue) (repr : Quoting)
    (localeCompare : String → String → Int) (sourceType primary : ArtifactTypeKey)
    (sourceAlso : List ArtifactTypeKey) (port : InputPortSpec)
    (hport : port.accepts = .concrete primary) :
    let source : DecodedHandle := ⟨.output, .concrete sourceType sourceAlso⟩
    let target : DecodedHandle := ⟨.input, .concrete primary port.alsoAccepts⟩
    let replayed := connectionRouteForSelection (some source) (some target) catalogue.artifactTypes
      catalogue.sent
    (∀ selection item, Carries item sourceType selection →
      ((replayed selection).isSome ↔ Accepts catalogue repr item port)) ∧
    ∀ route ∈ connectionRoutesFor localeCompare (some source) (some target)
        catalogue.artifactTypes catalogue.sent,
      replayed (connectionRouteSelection route) = some route ∧
        ∀ item, Carries item sourceType (connectionRouteSelection route) →
          Accepts catalogue repr item port := by
  refine ⟨fun selection item hitem => selection_agrees hport hitem sourceAlso,
    fun route hroute => ?_⟩
  have hrecovered := routes_recovered hroute
  refine ⟨hrecovered, fun item hitem => ?_⟩
  rw [← selection_agrees hport hitem sourceAlso, hrecovered]
  rfl

def integerValue : ArtifactTypeKey := ⟨"scalar.integer", 1⟩

def textValue : ArtifactTypeKey := ⟨"scalar.text", 1⟩

def txtFile : ArtifactTypeKey := ⟨"file.txt", 1⟩

def integerToText : ArtifactConversion where
  key := ⟨"builtin.scalar.integer_to_text", 1⟩
  sourceArtifactType := integerValue
  targetArtifactType := textValue
  title := "As text"
  sourceType := .int
  targetType := .named "str"

def textFileToText : ArtifactConversion where
  key := ⟨"builtin.file.txt_to_text", 1⟩
  sourceArtifactType := txtFile
  targetArtifactType := textValue
  title := "As text"
  sourceType := .named "bytes"
  targetType := .named "str"

/-- The conversions that are always there. -/
def canonicalCatalogue : Catalogue where
  artifactTypes := [⟨integerValue, []⟩, ⟨textValue, []⟩, ⟨txtFile, []⟩]
  conversions := [integerToText, textFileToText]
  types_nodup := by decide
  paths_nodup := by decide
  conversions_nodup := by decide
  feeds := by decide

def textPort : InputPortSpec := ⟨"text", .concrete textValue, [], false, false, true⟩

def integerItem : Incoming where
  toPort := "text"
  toPlug := none
  value := .ref ⟨"00000000-0000-4000-8000-000000000001", "scalar.integer", 1, none⟩
  projectionPath := none
  conversionPath := [integerToText.key]
  mapDriven := false
  label := "Edge 'a'.'value' -> 'b'.'text'"
  sourceNodeId := "a"
  sourcePort := "value"
  targetNodeId := "b"

/-- An integer delivered as text: the canvas takes the selection, and so does the server. -/
theorem integer_to_text_agrees :
    (connectionRouteForSelection (some ⟨.output, .concrete integerValue []⟩)
      (some ⟨.input, .concrete textValue []⟩) canonicalCatalogue.artifactTypes
      canonicalCatalogue.sent ⟨none, [integerToText.key]⟩).isSome ∧
    Accepts canonicalCatalogue id integerItem textPort := by
  have hroute : (connectionRouteForSelection (some ⟨.output, .concrete integerValue []⟩)
      (some ⟨.input, .concrete textValue []⟩) canonicalCatalogue.artifactTypes
      canonicalCatalogue.sent ⟨none, [integerToText.key]⟩).isSome := by
    decide
  have hagree := (routes_agree canonicalCatalogue id (fun _ _ => 0) integerValue textValue []
    textPort rfl).1 ⟨none, [integerToText.key]⟩ integerItem ⟨rfl, rfl, rfl⟩
  exact ⟨hroute, hagree.mp hroute⟩

end Offers

end Grafy.NodeContracts
